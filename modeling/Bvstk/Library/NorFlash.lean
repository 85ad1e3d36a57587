import Mathlib.Data.Nat.Notation
import Mathlib.Data.UInt

/-! # The cells of a NOR flash

Erasing sets every bit of a range, programming can only clear bits. Erasing a range and then
programming it whole is the same as writing it.
-/
namespace NorFlash

/-- What the flash holds at every address. -/
abbrev Cells := ℕ → UInt8

variable (cells : Cells) (start n : ℕ) (data : ℕ → UInt8)

def erase : Cells := fun a => if start ≤ a ∧ a < start + n then 0xff else cells a

def program : Cells := fun a => if start ≤ a ∧ a < start + n then cells a &&& data (a - start) else cells a

def overwrite : Cells := fun a => if start ≤ a ∧ a < start + n then data (a - start) else cells a

theorem erased_and (b : UInt8) : 0xff &&& b = b := by
  apply UInt8.toNat_inj.mp
  rw [UInt8.toNat_and]
  change (2^8 - 1) &&& b.toNat = b.toNat
  rw [Nat.and_comm, Nat.and_two_pow_sub_one_eq_mod]
  exact Nat.mod_eq_of_lt b.toNat_lt

theorem program_zero : program cells start 0 data = cells := by
  funext a
  exact if_neg (by omega)

theorem program_congr {data data' : ℕ → UInt8} (h : ∀ i < n, data i = data' i) :
    program cells start n data = program cells start n data' := by
  funext a
  unfold program
  split
  · rw [h _ (by omega)]
  · exact Eq.refl _

/-- Pages one after the other. -/
theorem program_program (m : ℕ) : program (program cells start n data) (start + n) m (fun i => data (n + i)) =
    program cells start (n + m) data := by
  funext a
  unfold program
  by_cases hlow : start ≤ a ∧ a < start + n
  · rw [if_neg (by omega), if_pos hlow, if_pos (by omega)]
  · by_cases hhigh : start + n ≤ a ∧ a < start + n + m
    · have hindex : n + (a - (start + n)) = a - start := by omega
      rw [if_pos hhigh, if_neg hlow, if_pos (by omega)]
      dsimp only
      rw [hindex]
    · rw [if_neg hhigh, if_neg hlow, if_neg (by omega)]

theorem program_erase : program (erase cells start n) start n data = overwrite cells start n data := by
  funext a
  unfold program erase overwrite
  split
  · exact erased_and _
  · exact Eq.refl _

theorem overwrite_zero : overwrite cells start 0 data = cells := by
  funext a
  exact if_neg (by omega)

theorem overwrite_overwrite (m : ℕ) : overwrite (overwrite cells start n data) (start + n) m (fun i => data (n + i)) =
    overwrite cells start (n + m) data := by
  funext a
  unfold overwrite
  by_cases hlow : start ≤ a ∧ a < start + n
  · rw [if_neg (by omega), if_pos hlow, if_pos (by omega)]
  · by_cases hhigh : start + n ≤ a ∧ a < start + n + m
    · have hindex : n + (a - (start + n)) = a - start := by omega
      rw [if_pos hhigh, if_pos (by omega)]
      dsimp only
      rw [hindex]
    · rw [if_neg hhigh, if_neg hlow, if_neg (by omega)]

/-- A block read, changed in one part and written back is a write of that part. -/
theorem overwrite_patched {block size : ℕ} {copy : ℕ → UInt8} (hcopy : ∀ i < size, copy i = cells (block + i))
    (hstart : block ≤ start) (hend : start + n ≤ block + size) :
    overwrite cells block size (overwrite copy (start - block) n data) = overwrite cells start n data := by
  funext a
  unfold overwrite
  by_cases hin : start ≤ a ∧ a < start + n
  · have hindex : a - block - (start - block) = a - start := by omega
    rw [if_pos (by omega), if_pos (by omega), if_pos hin, hindex]
  · rw [if_neg hin]
    by_cases hblock : block ≤ a ∧ a < block + size
    · rw [if_pos hblock, if_neg (by omega), hcopy _ (by omega), Nat.add_sub_cancel' hblock.1]
    · rw [if_neg hblock]

/-- A write that changes nothing wrote what was there. -/
theorem overwrite_eq_self : overwrite cells start n data = cells ↔ ∀ i < n, data i = cells (start + i) := by
  constructor
  · intro h i hi
    have hi' := congrFun h (start + i)
    rwa [overwrite, if_pos ⟨Nat.le_add_right start i,Nat.add_lt_add_left hi start⟩, Nat.add_sub_cancel_left] at hi'
  · intro h
    funext a
    unfold overwrite
    split
    · rw [h (a - start) (by omega), Nat.add_sub_cancel' (by omega)]
    · exact Eq.refl _

end NorFlash
