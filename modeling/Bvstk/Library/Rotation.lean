import Mathlib.Data.List.Basic
import Mathlib.Data.Nat.Notation

/-! # Reading round a ring

The positions of a ring of `n` places from one of them on. Reading them in pieces, each from where the
last one ended, gives the same as reading them at once.
-/
namespace Rotation

/-- `count` positions from `start` on. -/
def positions (n start count : ℕ) : List ℕ := (List.range count).map fun i => (start + i) % n

variable {n start : ℕ}

@[simp] theorem positions_zero (n start : ℕ) : positions n start 0 = [] := List.map_nil

@[simp] theorem positions_length (n start count : ℕ) : (positions n start count).length = count := by
  rw [positions,List.length_map,List.length_range]

/-- A second piece begins where the first ended. -/
theorem positions_add (n start count more : ℕ) :
    positions n start (count + more) = positions n start count ++ positions n ((start + count) % n) more := by
  simp only [positions]
  rw [List.range_add,List.map_append,List.map_map]
  congr 1
  apply List.map_congr_left
  intro i _
  rw [Function.comp_apply,Nat.mod_add_mod,Nat.add_assoc]

/-- A piece that does not pass the end of the ring. -/
theorem positions_eq {count : ℕ} (h : start + count ≤ n) : positions n start count = List.range' start count := by
  rw [positions,List.range'_eq_map_range]
  apply List.map_congr_left
  intro i hi
  have hi := List.mem_range.1 hi
  exact Nat.mod_eq_of_lt (by omega)

/-- Whatever is read of the positions is read from where it begins. -/
theorem positions_infix {α : Type} {f : ℕ → α} {pre window post : List α} {count : ℕ}
    (h : (positions n start count).map f = pre ++ window ++ post) :
    window = (positions n ((start + pre.length) % n) window.length).map f := by
  have hcount : count = pre.length + (window.length + post.length) := by
    have hlength := congrArg List.length h
    simp only [List.length_map,positions_length,List.length_append] at hlength
    omega
  rw [hcount,positions_add,positions_add,List.append_assoc,List.map_append,List.map_append] at h
  obtain ⟨-,hrest⟩ := List.append_inj h (by rw [List.length_map,positions_length])
  obtain ⟨hwindow,-⟩ := List.append_inj hrest (by rw [List.length_map,positions_length])
  exact hwindow.symm

/-- One round has each position once. -/
theorem positions_perm (h : start < n) : (positions n start n).Perm (List.range n) := by
  have hsplit : positions n start n = List.range' start (n - start) ++ List.range start := by
    have hround : n = (n - start) + start := by omega
    have hend : (start + (n - start)) % n = 0 := by
      rw [Nat.add_sub_of_le (Nat.le_of_lt h),Nat.mod_self]
    calc positions n start n = positions n start ((n - start) + start) := by rw [← hround]
      _ = positions n start (n - start) ++ positions n 0 start := by rw [positions_add,hend]
      _ = List.range' start (n - start) ++ List.range start := by
        rw [positions_eq (by omega),positions_eq (by omega),List.range_eq_range']
  have hwhole : List.range n = List.range start ++ List.range' start (n - start) := by
    have hround : n = start + (n - start) := by omega
    calc List.range n = List.range (start + (n - start)) := by rw [← hround]
      _ = List.range start ++ (List.range (n - start)).map (start + ·) := List.range_add
      _ = List.range start ++ List.range' start (n - start) := by rw [List.range'_eq_map_range]
  rw [hsplit,hwhole]
  exact List.perm_append_comm

end Rotation
