import Mathlib.Data.List.Basic
import Mathlib.Data.Nat.Notation

/-! # Deterministic machines with outputs

A machine reads a list of inputs and answers each of them. Invariants are proved
once for a step; the rank rule bounds how many ticks a pending obligation waits.
-/
namespace Machine
variable {σ ι ο : Type*} (step : σ → ι → σ × ο)

/-- The state after a list of inputs. -/
def final (s : σ) (inputs : List ι) : σ := inputs.foldl (fun s i => (step s i).1) s

/-- Each input with the answer it got. -/
def trace : σ → List ι → List (ι × ο)
  | _, [] => []
  | s, i :: inputs => (i,(step s i).2) :: trace (step s i).1 inputs

@[simp] theorem final_nil (s : σ) : final step s [] = s := rfl
@[simp] theorem final_cons (s : σ) (i : ι) (inputs : List ι) :
    final step s (i :: inputs) = final step (step s i).1 inputs := rfl
@[simp] theorem trace_nil (s : σ) : trace step s [] = [] := rfl
@[simp] theorem trace_cons (s : σ) (i : ι) (inputs : List ι) :
    trace step s (i :: inputs) = (i,(step s i).2) :: trace step (step s i).1 inputs := rfl

@[simp] theorem final_append (s : σ) (xs ys : List ι) :
    final step s (xs ++ ys) = final step (final step s xs) ys := by
  simp [final]

theorem trace_append (s : σ) (xs ys : List ι) :
    trace step s (xs ++ ys) = trace step s xs ++ trace step (final step s xs) ys := by
  induction xs generalizing s with
  | nil => rfl
  | cons x xs ih => simp [ih]

/-- A trace splits where its inputs do. -/
theorem trace_eq_append_cons {s : σ} {inputs : List ι} {before after : List (ι × ο)} {p : ι × ο}
    (h : trace step s inputs = before ++ p :: after) :
    ∃ pre post, inputs = pre ++ p.1 :: post ∧ p.2 = (step (final step s pre) p.1).2 ∧
      before = trace step s pre ∧ after = trace step (step (final step s pre) p.1).1 post := by
  induction before generalizing s inputs with
  | nil =>
    cases inputs with
    | nil => exact absurd h (by simp)
    | cons i inputs =>
      simp only [trace_cons, List.nil_append, List.cons.injEq] at h
      obtain ⟨rfl,rfl⟩ := h
      exact ⟨[],inputs,rfl,rfl,rfl,rfl⟩
  | cons q before ih =>
    cases inputs with
    | nil => exact absurd h (by simp)
    | cons i inputs =>
      simp only [trace_cons, List.cons_append, List.cons.injEq] at h
      obtain ⟨rfl,h⟩ := h
      obtain ⟨pre,post,rfl,hanswer,rfl,rfl⟩ := ih h
      exact ⟨i :: pre,post,rfl,hanswer,rfl,rfl⟩

theorem mem_trace {s : σ} {inputs : List ι} {p : ι × ο} (h : p ∈ trace step s inputs) :
    ∃ pre post, inputs = pre ++ p.1 :: post ∧ p.2 = (step (final step s pre) p.1).2 := by
  obtain ⟨before,after,hsplit⟩ := List.append_of_mem h
  obtain ⟨pre,post,hinputs,hanswer,-,-⟩ := trace_eq_append_cons step hsplit
  exact ⟨pre,post,hinputs,hanswer⟩

variable {step}

/-- A condition that is never regained held all along. -/
theorem of_final {B : σ → Prop} (hback : ∀ s i, B (step s i).1 → B s) {s : σ} {inputs : List ι}
    (hB : B (final step s inputs)) : B s := by
  induction inputs generalizing s with
  | nil => exact hB
  | cons i inputs ih => exact hback s i (ih hB)

/-- What a step preserves while `B` lasts, a run preserves. -/
theorem final_invariant_while {B P : σ → Prop} (hback : ∀ s i, B (step s i).1 → B s)
    (hstep : ∀ s i, B (step s i).1 → P s → P (step s i).1) {s : σ} (hs : P s) {inputs : List ι}
    (hB : B (final step s inputs)) : P (final step s inputs) := by
  induction inputs generalizing s with
  | nil => exact hs
  | cons i inputs ih => exact ih (hstep s i (of_final hback hB) hs) hB

/-- What a step preserves, a run preserves. -/
theorem final_invariant {P : σ → Prop} (hstep : ∀ s i, P s → P (step s i).1) {s : σ} (hs : P s)
    (inputs : List ι) : P (final step s inputs) :=
  final_invariant_while (B := fun _ => True) (fun _ _ _ => trivial) (fun s i _ => hstep s i) hs trivial

/-- What is kept by the steps that fit, is kept by a run of such steps. -/
theorem final_of_fits {I : σ → Prop} {Fits : σ → ι → Prop} (hkeep : ∀ s i, I s → Fits s i → I (step s i).1) {s : σ}
    (hs : I s) {inputs : List ι} (hfits : ∀ pre i, pre ++ [i] <+: inputs → Fits (final step s pre) i) :
    I (final step s inputs) := by
  induction inputs generalizing s with
  | nil => exact hs
  | cons i inputs ih =>
    refine ih (hkeep s i hs (hfits [] i ⟨inputs,rfl⟩)) fun pre j hpre => ?_
    exact hfits (i :: pre) j (List.cons_prefix_cons.mpr ⟨rfl,hpre⟩)

/-- Where bad steps are those that spoil a state for good, a run is good all along exactly when
it has none. -/
theorem final_good_iff {I Good : σ → Prop} {Bad : σ → ι → Prop} (hgood : ∀ s, I s → Good s)
    (hkeep : ∀ s i, I s → ¬Bad s i → I (step s i).1) (hspoil : ∀ s i, I s → Bad s i → ¬Good (step s i).1) {s : σ}
    (hs : I s) (inputs : List ι) :
    (∀ pre, pre <+: inputs → Good (final step s pre)) ↔ ∀ pre i, pre ++ [i] <+: inputs → ¬Bad (final step s pre) i := by
  induction inputs generalizing s with
  | nil =>
    constructor
    · intro _ pre i hpre
      simp at hpre
    · intro _ pre hpre
      rw [List.prefix_nil.mp hpre]
      exact hgood s hs
  | cons i inputs ih =>
    constructor
    · intro h pre j hpre
      have hfirst : ¬Bad s i := fun hbad => hspoil s i hs hbad (h [i] ⟨inputs,rfl⟩)
      cases pre with
      | nil =>
        obtain rfl : j = i := (List.cons_prefix_cons.mp hpre).1
        exact hfirst
      | cons k pre =>
        obtain ⟨rfl,hrest⟩ := List.cons_prefix_cons.mp hpre
        exact (ih (hkeep s k hs hfirst)).mp (fun q hq => h (k :: q) (List.cons_prefix_cons.mpr ⟨rfl,hq⟩)) pre j hrest
    · intro h pre hpre
      cases pre with
      | nil => exact hgood s hs
      | cons k pre =>
        obtain ⟨rfl,hrest⟩ := List.cons_prefix_cons.mp hpre
        have hfirst : ¬Bad s k := h [] k ⟨inputs,rfl⟩
        exact (ih (hkeep s k hs hfirst)).mpr
          (fun q j hq => h (k :: q) j (List.cons_prefix_cons.mpr ⟨rfl,hq⟩)) pre hrest

/-- What a step preserves until it is discharged, a run preserves or discharges. -/
theorem final_unless {B P : σ → Prop} {D : ι → ο → Prop} (hback : ∀ s i, B (step s i).1 → B s)
    (hstep : ∀ s i, B (step s i).1 → P s → D i (step s i).2 ∨ P (step s i).1) {s : σ} (hs : P s)
    {inputs : List ι} (hB : B (final step s inputs)) :
    (∃ p ∈ trace step s inputs, D p.1 p.2) ∨ P (final step s inputs) := by
  induction inputs generalizing s with
  | nil => exact Or.inr hs
  | cons i inputs ih =>
    rcases hstep s i (of_final hback hB) hs with hdone | hnext
    · exact Or.inl ⟨_,List.mem_cons_self,hdone⟩
    · exact (ih hnext hB).imp_left fun ⟨p,hp,hdone⟩ => ⟨p,List.mem_cons_of_mem _ hp,hdone⟩

/-- An obligation that survives while `B` lasts until it is discharged, and whose rank drops
with every tick, is discharged once there are more ticks than its rank. -/
theorem discharged_while {B W : σ → Prop} {D : ι → ο → Prop} {tick : ι → Bool} {d : σ → ℕ}
    (hback : ∀ s i, B (step s i).1 → B s)
    (hstep : ∀ s i, B (step s i).1 → W s → D i (step s i).2 ∨
      W (step s i).1 ∧ d (step s i).1 + (if tick i then 1 else 0) ≤ d s)
    {s : σ} (hs : W s) {inputs : List ι} (hB : B (final step s inputs)) (hticks : d s < inputs.countP tick) :
    ∃ p ∈ trace step s inputs, D p.1 p.2 := by
  induction inputs generalizing s with
  | nil => simp at hticks
  | cons i inputs ih =>
    rcases hstep s i (of_final hback hB) hs with hdone | ⟨hw,hrank⟩
    · exact ⟨_,List.mem_cons_self,hdone⟩
    · have hlt : d (step s i).1 < inputs.countP tick := by
        simp only [List.countP_cons] at hticks
        omega
      obtain ⟨p,hp,hdone⟩ := ih hw hB hlt
      exact ⟨p,List.mem_cons_of_mem _ hp,hdone⟩

/-- The rank rule without a condition. -/
theorem discharged_of_rank {W : σ → Prop} {D : ι → ο → Prop} {tick : ι → Bool} {d : σ → ℕ}
    (hstep : ∀ s i, W s → D i (step s i).2 ∨
      W (step s i).1 ∧ d (step s i).1 + (if tick i then 1 else 0) ≤ d s)
    {s : σ} (hs : W s) {inputs : List ι} (hticks : d s < inputs.countP tick) :
    ∃ p ∈ trace step s inputs, D p.1 p.2 :=
  discharged_while (B := fun _ => True) (fun _ _ _ => trivial) (fun s i _ => hstep s i) hs trivial hticks

end Machine
