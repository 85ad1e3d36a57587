import Bvstk.Library.CallLog
import Mathlib.Data.Nat.Notation
import Mathlib.Data.List.TakeWhile

/-! # Sweeps

A loop does the same to one element after the other, and ends with the first that is refused.
What it has done is told by the elements before that one.
-/
namespace Sweep

variable {ι ω : Type*} (ok : ι → Bool) (act : ι → ω → ω)

/-- Acts on the elements in order, up to the first that is not `ok`. -/
def run : List ι → ω → Bool × ω
  | [], w => (true,w)
  | i :: todo, w => if ok i then run todo (act i w) else (false,w)

theorem run_eq (todo : List ι) (w : ω) :
    run ok act todo w = (todo.all ok,(todo.takeWhile ok).foldl (fun w i => act i w) w) := by
  induction todo generalizing w with
  | nil => rfl
  | cons i todo ih =>
    unfold run
    cases hok : ok i with
    | false => simp [hok]
    | true => simp [hok, ih]

variable {ok act}

/-- An action on a list that it extends by the same for each element. -/
theorem foldl_extends {κ : Type*} {view : ω → List κ} {made : ι → List κ} (hact : ∀ i w, view (act i w) = view w ++ made i)
    (done : List ι) (w : ω) : view (done.foldl (fun w i => act i w) w) = view w ++ done.flatMap made := by
  induction done generalizing w with
  | nil => simp
  | cons i done ih => rw [List.foldl_cons, ih, hact, List.append_assoc, List.flatMap_cons]

theorem run_extends {κ : Type*} (view : ω → List κ) {made : ι → List κ} (hact : ∀ i w, view (act i w) = view w ++ made i)
    (todo : List ι) (w : ω) : view (run ok act todo w).2 = view w ++ (todo.takeWhile ok).flatMap made := by
  rw [run_eq]
  exact foldl_extends hact _ w

/-- An element that was done is not refused, and none before it was. -/
theorem takeWhile_range {n i : ℕ} {ok : ℕ → Bool} : i ∈ (List.range n).takeWhile ok ↔ i < n ∧ ∀ j ≤ i, ok j = true := by
  induction n generalizing ok i with
  | zero => simp
  | succ n ih =>
    rw [List.range_succ_eq_map]
    cases hzero : ok 0 with
    | false =>
      rw [List.takeWhile_cons_of_neg (by simp [hzero])]
      simp only [List.not_mem_nil, false_iff, not_and]
      intro _ hall
      exact absurd (hall 0 (Nat.zero_le i)) (by simp [hzero])
    | true =>
      rw [List.takeWhile_cons_of_pos hzero, List.mem_cons, List.takeWhile_map, List.mem_map]
      constructor
      · rintro (rfl | ⟨j,hj,rfl⟩)
        · exact ⟨Nat.succ_pos n,fun j hj => by rwa [Nat.le_zero.mp hj]⟩
        · obtain ⟨hlt,hall⟩ := ih.mp hj
          refine ⟨Nat.succ_lt_succ hlt,?_⟩
          intro k hk
          cases k with
          | zero => exact hzero
          | succ k => exact hall k (Nat.le_of_succ_le_succ hk)
      · rintro ⟨hlt,hall⟩
        cases i with
        | zero => exact Or.inl rfl
        | succ i =>
          refine Or.inr ⟨i,ih.mpr ⟨Nat.lt_of_succ_lt_succ hlt,?_⟩,rfl⟩
          intro k hk
          exact hall (k + 1) (Nat.succ_le_succ hk)

/-! ## Actions that may fail -/

section
variable {α : Type*} (attempt : ι → ω → Option α × ω)

/-- Acts on the elements in order, up to the first that fails. -/
def upTo : List ι → ω → Option α × ω
  | [], w => (none,w)
  | i :: todo, w =>
    match attempt i w with
    | (none,w) => upTo todo w
    | (some e,w) => (some e,w)

variable {attempt}

/-- What was done is told by a first part of the elements, by all of them if nothing failed; else
the next one did. -/
theorem upTo_extends {κ : Type*} (view : ω → List κ) {made : ι → List κ} (done : ι → Prop)
    (hdone : ∀ i w, (attempt i w).1 = none → done i ∧ view (attempt i w).2 = view w ++ made i)
    (hfailed : ∀ i w, (attempt i w).1 ≠ none → view (attempt i w).2 = view w) (todo : List ι) (w : ω) :
    ∃ first, first <+: todo ∧ view (upTo attempt todo w).2 = view w ++ first.flatMap made ∧ (∀ i ∈ first, done i) ∧
      ((upTo attempt todo w).1 = none → first = todo) ∧
      ((upTo attempt todo w).1 ≠ none →
        ∃ i rest w', todo = first ++ i :: rest ∧ (attempt i w').1 = (upTo attempt todo w).1) := by
  induction todo generalizing w with
  | nil => exact ⟨[],List.prefix_rfl,by simp [upTo],by simp,fun _ => rfl,fun h => absurd rfl h⟩
  | cons i todo ih =>
    have hd := hdone i w
    have hf := hfailed i w
    unfold upTo
    split
    · rename_i w' hw'
      rw [hw'] at hd
      obtain ⟨hi,hview⟩ := hd rfl
      obtain ⟨first,hpre,hall,hgood,hwhole,hnext⟩ := ih w'
      refine ⟨i :: first,(List.cons_prefix_cons).mpr ⟨rfl,hpre⟩,?_,?_,fun h => by rw [hwhole h],fun h => ?_⟩
      · rw [hall, hview, List.append_assoc, List.flatMap_cons]
      · intro j hj
        rcases List.mem_cons.mp hj with rfl | hj
        · exact hi
        · exact hgood j hj
      · obtain ⟨j,rest,w'',hsplit,hbad⟩ := hnext h
        exact ⟨j,rest,w'',by rw [hsplit, List.cons_append],hbad⟩
    · rename_i e w' hw'
      rw [hw'] at hf
      refine ⟨[],List.nil_prefix,by simpa using hf (by simp),by simp,?_,fun _ => ⟨i,todo,w,rfl,by rw [hw']⟩⟩
      intro h
      cases h

/-- What grows by no more than `n` with each element. -/
theorem upTo_bound (size : ω → ℕ) {n : ℕ} (hgrow : ∀ i w, size (attempt i w).2 ≤ size w + n) (todo : List ι) (w : ω) :
    size (upTo attempt todo w).2 ≤ size w + todo.length * n := by
  induction todo generalizing w with
  | nil => exact Nat.le_add_right _ _
  | cons i todo ih =>
    have hone := hgrow i w
    rw [List.length_cons, Nat.succ_mul]
    unfold upTo
    split
    · rename_i w' hw'
      rw [hw'] at hone
      have hrest := ih w'
      dsimp only at hone
      omega
    · rename_i e w' hw'
      rw [hw'] at hone
      dsimp only at hone ⊢
      omega

/-- A part of the numbers from 0 on is again such numbers. -/
theorem prefix_range {n : ℕ} {first : List ℕ} (h : first <+: List.range n) : ∃ k ≤ n, first = List.range k := by
  have hle : first.length ≤ n := by simpa using h.length_le
  refine ⟨first.length,hle,?_⟩
  rw [List.prefix_iff_eq_take.mp h, List.take_range, List.length_range, Nat.min_eq_left hle]

end

end Sweep
