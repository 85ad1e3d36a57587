import Mathlib.Data.List.DropRight
import Mathlib.Data.Nat.Notation

/-! # Texts at the front of a buffer

A buffer is read from its start. What is read after characters are moved or copied in it is put
together from what was read before, and a scan of the buffer is one of the text.
-/
namespace TextBuffer

variable {α : Type}

/-- The first `n` characters. -/
def read (b : ℕ → α) (n : ℕ) : List α := (List.range n).map b

/-- `n` characters of `src` are copied to `start`. -/
def copy (b : ℕ → α) (start : ℕ) (src : ℕ → α) (n : ℕ) : ℕ → α :=
  fun i => if start ≤ i ∧ i < start + n then src (i - start) else b i

def store (b : ℕ → α) (at' : ℕ) (c : α) : ℕ → α := fun i => if i = at' then c else b i

/-- The text up to a character that ends it, or of `n` characters if it is not found in them. -/
def upTo [DecidableEq α] (stop : α) (b : ℕ → α) (n : ℕ) : List α := (read b n).takeWhile (· ≠ stop)

/-- Back from a position, over characters that `p` holds of. -/
def skipLeft (p : α → Bool) (b : ℕ → α) : ℕ → ℕ
  | 0 => 0
  | i + 1 => if p (b i) = true then skipLeft p b i else i + 1

/-- On from a position, over at most `left` characters that `p` holds of. -/
def skipRight (p : α → Bool) (b : ℕ → α) : (left : ℕ) → ℕ → ℕ
  | 0, i => i
  | left + 1, i => if p (b i) = true then skipRight p b left (i + 1) else i

/-! ## What is read -/

section
variable (b : ℕ → α) (start n : ℕ) (src : ℕ → α)

@[simp] theorem length_read : (read b n).length = n := by
  simp [read]

@[simp] theorem read_zero : read b 0 = [] := rfl

theorem getElem_read {i : ℕ} (h : i < (read b n).length) : (read b n)[i] = b i := by
  simp [read]

theorem read_one : read b 1 = [b 0] := rfl

theorem read_add (m : ℕ) : read b (m + n) = read b m ++ read (fun i => b (m + i)) n := by
  simp [read, List.range_add, Function.comp_def]

theorem read_congr {b b' : ℕ → α} {n : ℕ} (h : ∀ i < n, b i = b' i) : read b n = read b' n :=
  List.map_congr_left fun i hi => h i (List.mem_range.mp hi)

theorem take_read {m : ℕ} (h : m ≤ n) : (read b n).take m = read b m := by
  obtain ⟨k,rfl⟩ := Nat.exists_eq_add_of_le h
  rw [read_add, List.take_left' (length_read b m)]

theorem drop_read {m : ℕ} (h : m ≤ n) : (read b n).drop m = read (fun i => b (m + i)) (n - m) := by
  obtain ⟨k,rfl⟩ := Nat.exists_eq_add_of_le h
  rw [read_add, List.drop_left' (length_read b m), Nat.add_sub_cancel_left]

theorem mem_read {c : α} : c ∈ read b n ↔ ∃ i < n, b i = c := by
  simp [read]

theorem copy_zero : copy b start src 0 = b := by
  funext i
  exact if_neg fun h => Nat.not_lt_of_le h.1 h.2

theorem copy_before {i : ℕ} (h : i < start) : copy b start src n i = b i := if_neg fun hi => Nat.not_lt_of_le hi.1 h

theorem copy_in {i : ℕ} (h : i < n) : copy b start src n (start + i) = src i := by
  unfold copy
  rw [if_pos ⟨Nat.le_add_right start i,Nat.add_lt_add_left h start⟩, Nat.add_sub_cancel_left]

theorem copy_behind {i : ℕ} (h : start + n ≤ i) : copy b start src n i = b i := if_neg fun hi => Nat.not_lt_of_le h hi.2

theorem read_copy_zero : read (copy b 0 src n) n = read src n := by
  refine read_congr fun i hi => ?_
  have hin := copy_in b 0 n src hi
  rwa [Nat.zero_add] at hin

theorem read_store {i : ℕ} (h : n ≤ i) (c : α) : read (store b i c) n = read b n :=
  read_congr fun _ hj => if_neg (Nat.ne_of_lt (Nat.lt_of_lt_of_le hj h))

theorem store_self (i : ℕ) (c : α) : store b i c i = c := if_pos rfl

/-- The characters from `start` to `stop` make room for others: the ones behind them are moved first. -/
theorem read_splice {stop len : ℕ} (hstart : start ≤ stop) (hstop : stop ≤ len) :
    read (copy (copy b (start + n) (fun i => b (stop + i)) (len - stop)) start src n) (start + n + (len - stop)) =
      (read b len).take start ++ read src n ++ (read b len).drop stop := by
  rw [read_add, read_add, take_read b len (Nat.le_trans hstart hstop), drop_read b len hstop]
  congr 1
  · congr 1
    · refine read_congr fun i hi => ?_
      rw [copy_before _ _ _ _ hi, copy_before _ _ _ _ (Nat.lt_add_right n hi)]
    · exact read_congr fun i hi => copy_in _ start n src hi
  · refine read_congr fun i hi => ?_
    rw [copy_behind _ _ _ _ (Nat.le_add_right _ i), copy_in _ _ _ _ hi]

/-- The characters from `start` to `stop` are taken out. -/
theorem read_cut {stop len : ℕ} (hstart : start ≤ stop) (hstop : stop ≤ len) :
    read (copy b start (fun i => b (stop + i)) (len - stop)) (start + (len - stop)) =
      (read b len).take start ++ (read b len).drop stop := by
  have hsplice := read_splice b start 0 b hstart hstop
  rwa [copy_zero, read_zero, List.append_nil, Nat.add_zero] at hsplice

theorem store_eq_copy (i : ℕ) (c : α) : store b i c = copy b i (fun _ => c) 1 := by
  funext j
  unfold store copy
  by_cases hj : j = i
  · rw [if_pos hj, if_pos ⟨Nat.le_of_eq hj.symm,Nat.lt_succ_of_le (Nat.le_of_eq hj)⟩]
  · have hout : ¬(i ≤ j ∧ j < i + 1) := fun h => hj (Nat.le_antisymm (Nat.le_of_lt_succ h.2) h.1)
    rw [if_neg hj, if_neg hout]

/-- A character is put in, behind those moved out of its way. -/
theorem read_insert {i : ℕ} (hi : i ≤ n) (c : α) :
    read (store (copy b (i + 1) (fun j => b (i + j)) (n - i)) i c) (n + 1) = (read b n).take i ++ [c] ++ (read b n).drop i := by
  have hsplice := read_splice b i 1 (fun _ => c) (Nat.le_refl i) hi
  have hlength : i + 1 + (n - i) = n + 1 := by omega
  rwa [← store_eq_copy, hlength] at hsplice

/-- Every entry takes that of the next, one after the other. -/
theorem foldl_shift : (List.range n).foldl (fun c i => store c i (c (i + 1))) b = fun i => if i < n then b (i + 1) else b i := by
  induction n with
  | zero => exact Eq.refl _
  | succ n ih =>
    rw [List.range_succ, List.foldl_append, ih]
    funext i
    simp only [List.foldl_cons, List.foldl_nil, store]
    by_cases hi : i = n
    · rw [if_pos hi, if_neg (Nat.not_lt_of_le (Nat.le_succ n)), hi, if_pos (Nat.lt_succ_self n)]
    · rw [if_neg hi]
      have hlt : i < n + 1 ↔ i < n := by omega
      simp only [hlt]

end

/-! ## Texts with an end -/

section
variable [DecidableEq α] {stop : α} {b : ℕ → α} {n : ℕ}

/-- A text that is in the buffer with its end is what is found there. -/
theorem upTo_eq {m : ℕ} (hm : m < n) (hstop : b m = stop) (h : stop ∉ read b m) : upTo stop b n = read b m := by
  obtain ⟨k,rfl⟩ := Nat.exists_eq_add_of_lt hm
  have hread : read b (m + k + 1) = read b m ++ stop :: read (fun i => b (m + (1 + i))) k := by
    rw [Nat.add_assoc, Nat.add_comm k 1, read_add, read_add, read_one]
    rw [Nat.add_zero, hstop]
    exact Eq.refl _
  have hall : ∀ c ∈ read b m, decide (c ≠ stop) = true := fun c hc => decide_eq_true fun heq => h (heq ▸ hc)
  rw [upTo, hread, List.takeWhile_append_of_pos hall, List.takeWhile_cons_of_neg, List.append_nil]
  exact fun hne => of_decide_eq_true hne rfl

theorem not_mem_upTo : stop ∉ upTo stop b n := by
  intro h
  have hne := List.mem_takeWhile_imp (p := fun c : α => decide (c ≠ stop)) h
  exact of_decide_eq_true hne rfl

theorem length_upTo_le : (upTo stop b n).length ≤ n := by
  have hle := (List.takeWhile_prefix (p := fun c : α => decide (c ≠ stop)) (l := read b n)).length_le
  rwa [length_read] at hle

/-- As many characters as there are up to the end are read as that text. -/
theorem read_upTo : read b (upTo stop b n).length = upTo stop b n := by
  have hpre := List.takeWhile_prefix (p := fun c : α => decide (c ≠ stop)) (l := read b n)
  have htake := List.prefix_iff_eq_take.mp hpre
  have hlength : (upTo stop b n).length ≤ n := length_upTo_le
  have hread := take_read b n hlength
  exact hread.symm.trans htake.symm

end

/-! ## Scans -/

section
variable (p : α → Bool) (b : ℕ → α)

theorem skipLeft_eq (i : ℕ) : skipLeft p b i = ((read b i).rdropWhile p).length := by
  induction i with
  | zero => exact Eq.refl _
  | succ i ih =>
    have hread : read b (i + 1) = read b i ++ [b i] := by
      rw [read_add, read_one]
      exact Eq.refl _
    rw [skipLeft, hread]
    split
    · rename_i hp
      rw [List.rdropWhile_concat_pos _ _ _ hp]
      exact ih
    · rename_i hp
      rw [List.rdropWhile_concat_neg _ _ _ hp, List.length_append, length_read]
      exact Eq.refl _

theorem skipLeft_le (i : ℕ) : skipLeft p b i ≤ i := by
  rw [skipLeft_eq]
  have hpre := (List.rdropWhile_prefix p (read b i)).length_le
  rwa [length_read] at hpre

/-- Where a scan stops, the text before is what is left of it. -/
theorem read_skipLeft (i : ℕ) : read b (skipLeft p b i) = (read b i).rdropWhile p := by
  have hpre := List.rdropWhile_prefix p (read b i)
  have htake := List.prefix_iff_eq_take.mp hpre
  rw [← skipLeft_eq, take_read b i (skipLeft_le p b i)] at htake
  exact htake.symm

theorem skipRight_eq (left i : ℕ) : skipRight p b left i = i + ((read (fun j => b (i + j)) left).takeWhile p).length := by
  induction left generalizing i with
  | zero => exact Eq.refl _
  | succ left ih =>
    have hread : read (fun j => b (i + j)) (left + 1) = b i :: read (fun j => b (i + 1 + j)) left := by
      rw [Nat.add_comm, read_add, read_one, List.singleton_append]
      simp only [Nat.add_zero, Nat.add_assoc]
    rw [skipRight, hread]
    split
    · rename_i hp
      rw [List.takeWhile_cons_of_pos hp, ih, List.length_cons, Nat.add_assoc, Nat.add_comm 1]
    · rename_i hp
      rw [List.takeWhile_cons_of_neg hp]
      exact Eq.refl _

theorem skipRight_le (left i : ℕ) : skipRight p b left i ≤ i + left := by
  rw [skipRight_eq]
  have hle := (List.takeWhile_prefix (p := p) (l := read (fun j => b (i + j)) left)).length_le
  rw [length_read] at hle
  exact Nat.add_le_add_left hle i

theorem le_skipRight (left i : ℕ) : i ≤ skipRight p b left i := by
  rw [skipRight_eq]
  exact Nat.le_add_right i _

/-- Two scans back, one after the other. -/
theorem skipLeft_skipLeft (q : α → Bool) (i : ℕ) :
    skipLeft q b (skipLeft p b i) = (((read b i).rdropWhile p).rdropWhile q).length := by
  rw [skipLeft_eq q, read_skipLeft]

theorem drop_length_takeWhile (l : List α) : l.drop (l.takeWhile p).length = l.dropWhile p := by
  have hdrop : (l.takeWhile p ++ l.dropWhile p).drop (l.takeWhile p).length = l.dropWhile p := List.drop_left
  rwa [List.takeWhile_append_dropWhile] at hdrop

/-- Two scans on from `i`, one after the other, in a text of `n` characters. -/
theorem skipRight_skipRight (q : α → Bool) {i n : ℕ} (hi : i ≤ n) :
    skipRight q b (n - skipRight p b (n - i) i) (skipRight p b (n - i) i) =
      i + ((((read b n).drop i).takeWhile p).length + ((((read b n).drop i).dropWhile p).takeWhile q).length) := by
  have hstop : skipRight p b (n - i) i = i + (((read b n).drop i).takeWhile p).length := by
    rw [skipRight_eq, drop_read b n hi]
  have hle : skipRight p b (n - i) i ≤ n := by
    have hle := skipRight_le p b (n - i) i
    rwa [Nat.add_sub_cancel' hi] at hle
  rw [skipRight_eq q, ← drop_read b n hle, hstop, ← List.drop_drop, drop_length_takeWhile, Nat.add_assoc]

theorem skipRight_skipRight_le (q : α → Bool) {i n : ℕ} (hi : i ≤ n) :
    skipRight q b (n - skipRight p b (n - i) i) (skipRight p b (n - i) i) ≤ n := by
  have hle := skipRight_le p b (n - i) i
  have hle' := skipRight_le q b (n - skipRight p b (n - i) i) (skipRight p b (n - i) i)
  omega

end

end TextBuffer
