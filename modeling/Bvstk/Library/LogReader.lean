import Mathlib.Data.List.Basic
import Mathlib.Logic.Function.Basic

/-! # Reading logs that forget

Logs grow at their ends, and only so many entries of each are kept. A reader goes through several
of them and speaks of what it gets to and of what it has missed. The account of a reader tells
how all it has said comes from the entries that it has passed, one after the other.
-/
namespace LogReader

variable {ι ε ω : Type*}

/-- What may be said of a log after so many missed entries, and of the entry after them, if any. -/
abbrev Voice (ι ε ω : Type*) := ι → (missed : ℕ) → Option (ℕ × ε) → List ω → Prop

variable [DecidableEq ι] {capacity : ℕ} {voice : Voice ι ε ω} {logs logs' : ι → List ε} {since pos : ι → ℕ} {said : List ω}

/-- A reader that started at `since` has come to `pos` and has said all this. It misses entries
only where they are no longer kept. -/
inductive Account (capacity : ℕ) (voice : Voice ι ε ω) (logs : ι → List ε) (since : ι → ℕ) : (ι → ℕ) → List ω → Prop
  | start : Account capacity voice logs since since []
  | miss {pos : ι → ℕ} {said out : List ω} {i : ι} {n : ℕ} (before : Account capacity voice logs since pos said)
      (hforgotten : n = 0 ∨ pos i + n + capacity ≤ (logs i).length) (hout : voice i n none out) :
      Account capacity voice logs since (Function.update pos i (pos i + n)) (said ++ out)
  | pass {pos : ι → ℕ} {said out : List ω} {i : ι} {n : ℕ} {e : ε} (before : Account capacity voice logs since pos said)
      (hforgotten : n = 0 ∨ pos i + n + capacity ≤ (logs i).length) (hentry : (logs i)[pos i + n]? = some e)
      (hout : voice i n (some (pos i + n,e)) out) :
      Account capacity voice logs since (Function.update pos i (pos i + n + 1)) (said ++ out)

/-- What was said stays true when the logs grow. -/
theorem Account.grow (h : Account capacity voice logs since pos said) (hgrow : ∀ i, logs i <+: logs' i) :
    Account capacity voice logs' since pos said := by
  induction h with
  | start => exact .start
  | miss _ hforgotten hout ih => exact .miss ih (hforgotten.imp_right fun h => Nat.le_trans h (hgrow _).length_le) hout
  | pass _ hforgotten hentry hout ih =>
    obtain ⟨hlt,_⟩ := List.getElem?_eq_some_iff.mp hentry
    refine .pass ih (hforgotten.imp_right fun h => Nat.le_trans h (hgrow _).length_le) ?_ hout
    obtain ⟨more,hmore⟩ := hgrow _
    rw [← hmore, List.getElem?_append_left hlt, hentry]

end LogReader
