import Bvstk.Library.JsonText

/-! # What JSON values mean

A tree of scalars, strings, arrays and objects, and the texts that stand for it. Blanks and the
spelling of strings are free; a scalar is its text.
-/
namespace JsonText

instance : DecidablePred IsBlank := fun b => inferInstanceAs (Decidable (b = 32 ∨ b = 9 ∨ b = 10 ∨ b = 13))

instance (text : Bytes) : Decidable (Blank text) := List.decidableBAll _ text

/-- A value without its spelling. A string is its characters in UTF-8. -/
inductive Tree where
  | scalar (text : Bytes) | string (s : Bytes) | array (elements : List Tree) | object (members : List (Bytes × Tree))

/-- A string token that is `ok` and denotes `s`. -/
def Names (ok : List Piece → Prop) (ps : List Piece) (s : Bytes) : Prop :=
  (∀ p ∈ ps, p.Valid) ∧ ok ps ∧ ∃ cs, Denotes ps cs ∧ utf8 cs = s

/-- A text stands for a tree in which no container is nested more than `n` deep. -/
inductive Means (ok : List Piece → Prop) : ℕ → Tree → Bytes → Prop
  | scalar {n : ℕ} {text : Bytes} (h : text ∈ literals ∨ Number text) : Means ok n (.scalar text) text
  | string {n : ℕ} {ps : List Piece} {s : Bytes} (h : Names ok ps s) : Means ok n (.string s) (stringToken ps)
  | emptyArray {n : ℕ} {blank : Bytes} (hblank : Blank blank) : Means ok (n + 1) (.array []) (91 :: (blank ++ [93]))
  | emptyObject {n : ℕ} {blank : Bytes} (hblank : Blank blank) : Means ok (n + 1) (.object []) (123 :: (blank ++ [125]))
  | array {n : ℕ} {es : List (Tree × Element)} (hne : es ≠ []) (hblank : ∀ e ∈ es, Blank e.2.before ∧ Blank e.2.after)
      (hmeans : ∀ e ∈ es, Means ok n e.1 e.2.value) :
      Means ok (n + 1) (.array (es.map Prod.fst)) (91 :: (commas (es.map fun e => e.2.text) ++ [93]))
  | object {n : ℕ} {ms : List ((Bytes × Tree) × Member)} (hne : ms ≠ [])
      (hblank : ∀ m ∈ ms, Blank m.2.before ∧ Blank m.2.middle ∧ Blank m.2.element.before ∧ Blank m.2.element.after)
      (hname : ∀ m ∈ ms, Names ok m.2.name m.1.1) (hmeans : ∀ m ∈ ms, Means ok n m.1.2 m.2.element.value) :
      Means ok (n + 1) (.object (ms.map Prod.fst)) (123 :: (commas (ms.map fun m => m.2.text) ++ [125]))

variable {ok : List Piece → Prop}

/-- A text that means something is a value. -/
theorem Means.value {n : ℕ} {t : Tree} {v : Bytes} (h : Means ok n t v) : Value ok n v := by
  induction h with
  | scalar h =>
    rcases h with h | h
    · exact .literal h
    · exact .number h
  | string h => exact .string h.1 h.2.1
  | emptyArray hblank => exact .emptyArray hblank
  | emptyObject hblank => exact .emptyObject hblank
  | array hne hblank hmeans ih =>
    rename_i n es
    have hmap : es.map (fun e => e.2.text) = (es.map Prod.snd).map Element.text := by rw [List.map_map]; rfl
    rw [hmap]
    refine .array (by simpa using hne) ?_ ?_
    · intro e he
      obtain ⟨x,hx,rfl⟩ := List.mem_map.mp he
      exact hblank x hx
    · intro e he
      obtain ⟨x,hx,rfl⟩ := List.mem_map.mp he
      exact ih x hx
  | object hne hblank hname hmeans ih =>
    rename_i n ms
    have hmap : ms.map (fun m => m.2.text) = (ms.map Prod.snd).map Member.text := by rw [List.map_map]; rfl
    rw [hmap]
    refine .object (by simpa using hne) ?_ ?_ ?_
    · intro m hm
      obtain ⟨x,hx,rfl⟩ := List.mem_map.mp hm
      exact hblank x hx
    · intro m hm
      obtain ⟨x,hx,rfl⟩ := List.mem_map.mp hm
      exact ⟨(hname x hx).1,(hname x hx).2.1⟩
    · intro m hm
      obtain ⟨x,hx,rfl⟩ := List.mem_map.mp hm
      exact ih x hx

/-- Room for more containers changes nothing. -/
theorem Value.mono {n m : ℕ} {v : Bytes} (h : Value ok n v) (hle : n ≤ m) : Value ok m v := by
  induction h generalizing m with
  | literal h => exact .literal h
  | number h => exact .number h
  | string hvalid hok => exact .string hvalid hok
  | emptyArray hblank =>
    obtain ⟨m,rfl⟩ := Nat.exists_eq_succ_of_ne_zero (by omega : m ≠ 0)
    exact .emptyArray hblank
  | emptyObject hblank =>
    obtain ⟨m,rfl⟩ := Nat.exists_eq_succ_of_ne_zero (by omega : m ≠ 0)
    exact .emptyObject hblank
  | array hne hblank hvalue ih =>
    obtain ⟨m,rfl⟩ := Nat.exists_eq_succ_of_ne_zero (by omega : m ≠ 0)
    exact .array hne hblank fun e he => ih e he (by omega)
  | object hne hblank hname hvalue ih =>
    obtain ⟨m,rfl⟩ := Nat.exists_eq_succ_of_ne_zero (by omega : m ≠ 0)
    exact .object hne hblank hname fun e he => ih e he (by omega)

end JsonText
