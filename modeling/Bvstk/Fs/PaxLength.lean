import Bvstk.Config.Printing
import Bvstk.Fs.TarArchive
import Bvstk.Library.FixpointLoop

/-! # The length of a PAX record

A record begins with its own length in decimal. The loop that finds it ends for every key and value,
and a reader who follows the lengths gets both back.
-/
namespace Bvstk.Fs
open FixpointLoop (loop loop_fixed loop_least loop_more loop_terminates)
open Ustar (record)

/-- `snprintf(NULL, 0, "%lu", length)`. -/
def decimalWidth (length : ℕ) : ℕ := (Config.I2cJson.decimal length).length

/-- `next`: what the length would be with the digits of `length`. -/
def nextLength (base length : ℕ) : ℕ := base + decimalWidth length

/-- `base` for a key and a value. -/
def recordBase (key value : List UInt8) : ℕ := key.length + value.length + 3

/-! ## Digits -/

theorem decimalWidth_eq (n : ℕ) : decimalWidth n = (if n < 10 then 0 else decimalWidth (n / 10)) + 1 := by
  rw [decimalWidth,Config.decimal_eq,List.length_append,List.length_singleton]
  split <;> exact Eq.refl _

theorem decimalWidth_mono : Monotone decimalWidth := by
  intro n m h
  induction n using Nat.strong_induction_on generalizing m with
  | _ n ih =>
    rw [decimalWidth_eq n,decimalWidth_eq m]
    by_cases hn : n < 10
    · rw [if_pos hn]
      omega
    · rw [if_neg hn,if_neg (by omega)]
      exact Nat.succ_le_succ (ih (n / 10) (by omega) (Nat.div_le_div_right h))

theorem decimalWidth_le (n : ℕ) : decimalWidth n ≤ n / 10 + 1 := by
  induction n using Nat.strong_induction_on with
  | _ n ih =>
    rw [decimalWidth_eq]
    split
    · omega
    · have hrest := ih (n / 10) (by omega)
      omega

theorem decimalWidth_pos (n : ℕ) : 1 ≤ decimalWidth n := by
  rw [decimalWidth_eq]
  exact Nat.le_add_left _ _

/-- Twenty digits are all that a number below 10^20 has. -/
theorem decimalDigits_width (left n : ℕ) : (decimalDigits left n).length ≤ decimalWidth n ∧
    (n < 10 ^ left → (decimalDigits left n).length + (if left = 0 then 1 else 0) = decimalWidth n) := by
  induction left generalizing n with
  | zero =>
    refine ⟨Nat.zero_le _,fun h => ?_⟩
    obtain rfl : n = 0 := by omega
    decide
  | succ left ih =>
    obtain ⟨hle,heq⟩ := ih (n / 10)
    rw [decimalDigits,decimalWidth_eq]
    by_cases hn : n < 10
    · rw [if_pos hn,if_pos hn]
      exact ⟨Nat.le_refl _,fun _ => Eq.refl _⟩
    · rw [if_neg hn,if_neg hn,List.length_append,List.length_singleton]
      refine ⟨Nat.succ_le_succ hle,fun h => ?_⟩
      have hrest : n / 10 < 10 ^ left := by
        rw [Nat.pow_succ] at h
        omega
      have hleft : left ≠ 0 := by
        rintro rfl
        omega
      have hwidth := heq hrest
      rw [if_neg hleft] at hwidth
      rw [if_neg (Nat.succ_ne_zero left)]
      omega

theorem decimal_width_le (n : ℕ) : (decimal n).length ≤ decimalWidth n := (decimalDigits_width 20 n).1

theorem decimal_width {n : ℕ} (h : n < 10 ^ 20) : (decimal n).length = decimalWidth n := (decimalDigits_width 20 n).2 h

/-! ## The loop -/

theorem nextLength_mono (base : ℕ) : Monotone (nextLength base) :=
  fun _ _ h => Nat.add_le_add_left (decimalWidth_mono h) base

/-- The loop ends, whatever the base is. -/
theorem loop_ends (base : ℕ) : ∃ rounds length, loop (nextLength base) rounds (base + 1) = some length := by
  have hwidth := decimalWidth_le (base + (base + 2))
  have hbound : nextLength base (base + (base + 2)) ≤ base + (base + 2) := by
    rw [nextLength]
    omega
  obtain ⟨length,hlength,-⟩ := loop_terminates (nextLength_mono base)
    (Nat.add_le_add_left (decimalWidth_pos (base + 1)) base) (by omega) hbound
  exact ⟨_,length,hlength⟩

theorem paxLength_le {base left length result : ℕ} (hfixed : nextLength base result = result) (h : length ≤ result) :
    paxLength base left length ≤ result := by
  induction left generalizing length with
  | zero => exact h
  | succ left ih =>
    have hnext : base + (decimal length).length ≤ result :=
      calc base + (decimal length).length ≤ nextLength base length := Nat.add_le_add_left (decimal_width_le length) base
        _ ≤ nextLength base result := nextLength_mono base h
        _ = result := hfixed
    rw [paxLength]
    split
    · exact h
    · exact ih hnext

/-- The loop with twenty digits and twenty rounds finds the same length, if it has no more digits. -/
theorem paxLength_eq {base rounds length : ℕ} (h : loop (nextLength base) rounds (base + 1) = some length)
    (hsmall : paxLength base 20 (base + 1) < 10 ^ 20) : paxLength base 20 (base + 1) = length := by
  have hfixed := @paxLength_fixed base 20 (base + 1) 1 (by omega) (Eq.refl _)
    (List.length_pos_iff.mpr (decimal_ne_nil _))
  have hpos : 1 ≤ (decimal (paxLength base 20 (base + 1))).length := List.length_pos_iff.mpr (decimal_ne_nil _)
  have hlow : base + 1 ≤ paxLength base 20 (base + 1) := by omega
  rw [decimal_width hsmall] at hfixed
  have hleast := loop_least (nextLength_mono base) h hfixed.symm hlow
  have hstart : base + 1 ≤ length := by
    have hend := loop_fixed h
    have hwidth := decimalWidth_pos length
    rw [nextLength] at hend
    omega
  exact Nat.le_antisymm (paxLength_le (loop_fixed h) hstart) hleast

/-! ## Records -/

theorem paxRecord_text (capacity : ℕ) (key value : List UInt8) : paxRecord capacity key value =
    if (recordText (paxLength (recordBase key value) 20 (recordBase key value + 1)) key value).length < capacity then
      some (recordText (paxLength (recordBase key value) 20 (recordBase key value + 1)) key value)
    else none := by
  have htext : ∀ length, decimal length ++ [32] ++ key ++ [61] ++ value ++ [10] = recordText length key value := by
    intro length
    simp [recordText]
  rw [paxRecord]
  simp only [htext,recordBase]
  exact Eq.refl _

/-- The length of a record is the loop's, and the record is printed if that leaves room for a NUL. -/
theorem paxRecord_iff (capacity : UInt64) (key value data : List UInt8) :
    paxRecord capacity.toNat key value = some data ↔ ∃ rounds length,
      loop (nextLength (recordBase key value)) rounds (recordBase key value + 1) = some length ∧
        length < capacity.toNat ∧ data = recordText length key value ∧ data.length = length := by
  have hcapacity := capacity.toNat_lt
  obtain ⟨rounds,length,hloop⟩ := loop_ends (recordBase key value)
  have hfixed := @paxLength_fixed (recordBase key value) 20 (recordBase key value + 1) 1 (by omega) (Eq.refl _)
    (List.length_pos_iff.mpr (decimal_ne_nil _))
  have hself : (recordText (paxLength (recordBase key value) 20 (recordBase key value + 1)) key value).length =
      paxLength (recordBase key value) 20 (recordBase key value + 1) := by
    rw [recordText_length]
    exact hfixed.symm
  rw [paxRecord_text,hself]
  constructor
  · intro h
    split at h
    · rename_i hfits
      have heq := paxLength_eq hloop (by omega)
      obtain rfl := Option.some.inj h
      exact ⟨rounds,length,hloop,heq ▸ hfits,by rw [heq],by rw [hself,heq]⟩
    · cases h
  · rintro ⟨rounds',length',hloop',hfits,rfl,-⟩
    have hle : paxLength (recordBase key value) 20 (recordBase key value + 1) ≤ length' := by
      have hend := loop_fixed hloop'
      have hwidth := decimalWidth_pos length'
      apply paxLength_le hend
      rw [nextLength] at hend
      omega
    have heq := paxLength_eq hloop' (by omega)
    rw [heq,if_pos hfits]

end Bvstk.Fs
