import Mathlib.Data.Int.ModEq
import Mathlib.Logic.Function.Basic

/-! # Bounded logs that overwrite themselves

A writer appends to an unbounded log but only keeps the newest `n` records, the
record of serial `s` in slot `s % n`. The window lemma below is all a reader
needs: a slot still holds its record until `n` newer ones have been written.
-/
namespace OverwriteRing
variable {α : Type*} {n : ℕ}

/-- The slots hold the last `n` records of the log. -/
def Retains (n : ℕ) (slot : ℕ → α) (log : List α) : Prop :=
  ∀ s, s < log.length → log.length ≤ s + n → log[s]? = some (slot (s % n))

/-- Two serials less than one revolution apart never share a slot. -/
theorem slot_ne_of_lt {s t : ℕ} (hst : s < t) (htn : t < s + n) : s % n ≠ t % n := by
  intro h
  have hdvd : n ∣ t - s := (Nat.modEq_iff_dvd' hst.le).mp h
  have hle : n ≤ t - s := Nat.le_of_dvd (by omega) hdvd
  omega

theorem retains_nil (slot : ℕ → α) : Retains n slot [] := by
  intro s hs
  simp at hs

/-- Writing the next slot keeps the window, shifted by one. -/
theorem Retains.push {slot : ℕ → α} {log : List α} (h : Retains n slot log) (a : α) :
    Retains n (Function.update slot (log.length % n) a) (log ++ [a]) := by
  intro s hs hw
  simp only [List.length_append, List.length_singleton] at hs hw
  rcases Nat.lt_or_ge s log.length with hlt | hge
  · have hne : s % n ≠ log.length % n := slot_ne_of_lt hlt (by omega)
    rw [List.getElem?_append_left hlt, Function.update_of_ne hne]
    exact h s hlt (by omega)
  · have hs' : s = log.length := by omega
    subst hs'
    simp

end OverwriteRing
