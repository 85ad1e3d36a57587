import Mathlib.Order.Basic
import Mathlib.Order.Monotone.Basic

/-! # Loops up to a fixed point

A loop that replaces a number by its image until nothing changes. Under a monotone function with a
bound it only climbs, and it ends at the lowest fixed point above where it began.
-/
namespace FixpointLoop

/-- The loop, of `rounds` rounds at most. -/
def loop (f : ℕ → ℕ) : (rounds n : ℕ) → Option ℕ
  | 0, _ => none
  | rounds + 1, n => if f n = n then some n else loop f rounds (f n)

variable {f : ℕ → ℕ} {n m rounds bound : ℕ}

theorem loop_succ : loop f (rounds + 1) n = if f n = n then some n else loop f rounds (f n) := rfl

theorem loop_fixed (h : loop f rounds n = some m) : f m = m := by
  induction rounds generalizing n with
  | zero => cases h
  | succ rounds ih =>
    rw [loop_succ] at h
    split at h
    · rename_i hfixed
      rwa [← Option.some.inj h]
    · exact ih h

/-- More rounds change nothing. -/
theorem loop_more (h : loop f rounds n = some m) (more : ℕ) : loop f (rounds + more) n = some m := by
  induction rounds generalizing n with
  | zero => cases h
  | succ rounds ih =>
    rw [Nat.succ_add,loop_succ]
    rw [loop_succ] at h
    split at h
    · rename_i hfixed
      rwa [if_pos hfixed]
    · rename_i hnext
      rw [if_neg hnext]
      exact ih h

/-- The loop ends: each round but the last climbs by one at least. -/
theorem loop_terminates (hf : Monotone f) (hup : n ≤ f n) (hn : n ≤ bound) (hbound : f bound ≤ bound) :
    ∃ m, loop f (bound - n + 1) n = some m ∧ n ≤ m ∧ m ≤ bound := by
  have hgap : ∃ gap, gap = bound - n := ⟨_,Eq.refl _⟩
  obtain ⟨gap,hgap⟩ := hgap
  induction gap using Nat.strong_induction_on generalizing n with
  | _ gap ih =>
    rw [loop_succ]
    by_cases hfixed : f n = n
    · exact ⟨n,if_pos hfixed,Nat.le_refl n,hn⟩
    · have hclimb : n < f n := lt_of_le_of_ne hup (Ne.symm hfixed)
      have hnext : f n ≤ bound := (hf hn).trans hbound
      obtain ⟨m,hloop,hlow,hhigh⟩ := ih (bound - f n) (by omega) (hf hup) hnext (Eq.refl _)
      refine ⟨m,?_,hup.trans hlow,hhigh⟩
      rw [if_neg hfixed]
      have hmore := loop_more hloop (bound - n - (bound - f n) - 1)
      have hrounds : bound - f n + 1 + (bound - n - (bound - f n) - 1) = bound - n := by omega
      rwa [hrounds] at hmore

/-- No fixed point lies between the start and the end. -/
theorem loop_least (hf : Monotone f) (h : loop f rounds n = some m) {k : ℕ} (hk : f k = k) (hn : n ≤ k) : m ≤ k := by
  induction rounds generalizing n with
  | zero => cases h
  | succ rounds ih =>
    rw [loop_succ] at h
    split at h
    · rwa [← Option.some.inj h]
    · have hnext : f n ≤ k := hk ▸ hf hn
      exact ih h hnext

end FixpointLoop
