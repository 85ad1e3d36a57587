import Mathlib.Data.List.Basic
import Mathlib.Data.Nat.Notation

/-! # A terminal with rows of any width

The row that the cursor is in, written byte by byte: a carriage return, a line feed to an empty
row, escape sequences that erase the row or move the cursor by one, and characters.
-/
namespace Terminal

inductive Pending where
  | ground | escape
  | control (parameters : List UInt8)
deriving DecidableEq

structure Screen where
  row : List UInt8
  column : ℕ
  pending : Pending

/-- What is shown as it is. -/
def Printable (c : UInt8) : Prop := 32 ≤ c ∧ c ≠ 127

instance (c : UInt8) : Decidable (Printable c) := inferInstanceAs (Decidable (_ ∧ _))

/-- A character is written over what is in its column. -/
def put (s : Screen) (c : UInt8) : Screen :=
  { s with row := (s.row ++ List.replicate (s.column - s.row.length) 32).take s.column ++ c :: s.row.drop (s.column + 1),
           column := s.column + 1 }

/-- The end of a control sequence: one column to the left or to the right, or all of the row erased. -/
def control (s : Screen) (parameters : List UInt8) (c : UInt8) : Screen :=
  if c = 68 ∧ parameters = [] then { s with column := s.column - 1, pending := .ground }
  else if c = 67 ∧ parameters = [] then { s with column := s.column + 1, pending := .ground }
  else if c = 75 ∧ parameters = [50] then { s with row := [], pending := .ground }
  else { s with pending := .ground }

def step (s : Screen) (c : UInt8) : Screen :=
  match s.pending with
  | .ground =>
    if c = 13 then { s with column := 0 }
    else if c = 10 then { s with row := [] }
    else if c = 27 then { s with pending := .escape }
    else if Printable c then put s c
    else s
  | .escape => if c = 91 then { s with pending := .control [] } else { s with pending := .ground }
  | .control parameters =>
    if (48 ≤ c ∧ c ≤ 57) ∨ c = 59 then { s with pending := .control (parameters ++ [c]) } else control s parameters c

def feed (s : Screen) (text : List UInt8) : Screen := text.foldl step s

section
variable (s : Screen) (text text' : List UInt8)

theorem feed_append : feed s (text ++ text') = feed (feed s text) text' := List.foldl_append

theorem step_printable {s : Screen} (hs : s.pending = .ground) {c : UInt8} (hc : Printable c) : step s c = put s c := by
  have h13 : c ≠ 13 := fun h => absurd (h ▸ hc) (by decide)
  have h10 : c ≠ 10 := fun h => absurd (h ▸ hc) (by decide)
  have h27 : c ≠ 27 := fun h => absurd (h ▸ hc) (by decide)
  unfold step
  rw [hs]
  dsimp only
  rw [if_neg h13, if_neg h10, if_neg h27, if_pos hc]

/-- A text is written over what is behind the cursor. -/
theorem feed_printable (htext : ∀ c ∈ text, Printable c) (front old : List UInt8) :
    feed ⟨front ++ old,front.length,.ground⟩ text = ⟨front ++ text ++ old.drop text.length,front.length + text.length,.ground⟩ := by
  induction text generalizing front old with
  | nil =>
    rw [List.append_nil, List.length_nil, List.drop_zero]
    exact Eq.refl _
  | cons c text ih =>
    obtain ⟨hc,htext⟩ := List.forall_mem_cons.mp htext
    have hput : step ⟨front ++ old,front.length,.ground⟩ c = ⟨(front ++ [c]) ++ old.drop 1,(front ++ [c]).length,.ground⟩ := by
      have hpad : front.length - (front ++ old).length = 0 := by
        rw [List.length_append]
        exact Nat.sub_eq_zero_of_le (Nat.le_add_right _ _)
      rw [step_printable rfl hc, put]
      dsimp only
      rw [hpad, List.replicate_zero, List.append_nil, List.take_left, ← List.drop_drop, List.drop_left, List.length_append,
        List.append_assoc]
      exact Eq.refl _
    have hlength : (front ++ [c]).length + text.length = front.length + (c :: text).length := by
      rw [List.length_append, List.length_singleton, List.length_cons]
      omega
    have hrow : front ++ [c] ++ text ++ (old.drop 1).drop text.length = front ++ c :: text ++ old.drop (c :: text).length := by
      rw [List.drop_drop, List.length_cons, Nat.add_comm 1, List.append_assoc front [c], List.singleton_append]
    have hfeed : feed ⟨front ++ old,front.length,.ground⟩ (c :: text) = feed (step ⟨front ++ old,front.length,.ground⟩ c) text := rfl
    rw [hfeed, hput, ih htext, hlength, hrow]

/-- At the end of the row a text is added to it. -/
theorem feed_end (htext : ∀ c ∈ text, Printable c) (front : List UInt8) :
    feed ⟨front,front.length,.ground⟩ text = ⟨front ++ text,(front ++ text).length,.ground⟩ := by
  have hfeed := feed_printable text htext front []
  rw [List.append_nil, List.drop_nil, List.append_nil] at hfeed
  rw [hfeed, List.length_append]

theorem feed_ground {s : Screen} (hs : s.pending = .ground) (htext : ∀ c ∈ text, Printable c) : (feed s text).pending = .ground := by
  induction text generalizing s with
  | nil => exact hs
  | cons c text ih =>
    obtain ⟨hc,htext⟩ := List.forall_mem_cons.mp htext
    refine ih ?_ htext
    rw [step_printable hs hc]
    exact hs

theorem feed_left {s : Screen} (hs : s.pending = .ground) (n : ℕ) :
    feed s (List.replicate n [27,91,68]).flatten = { s with column := s.column - n } := by
  induction n generalizing s with
  | zero => exact Eq.refl _
  | succ n ih =>
    have hone : feed s [27,91,68] = { s with column := s.column - 1 } := by
      obtain ⟨row,column,pending⟩ := s
      cases hs
      exact Eq.refl _
    have hrest := ih (s := { s with column := s.column - 1 }) hs
    rw [List.replicate_succ, List.flatten_cons, feed_append, hone, hrest]
    dsimp only
    rw [Nat.sub_sub, Nat.add_comm 1]

theorem feed_right {s : Screen} (hs : s.pending = .ground) (n : ℕ) :
    feed s (List.replicate n [27,91,67]).flatten = { s with column := s.column + n } := by
  induction n generalizing s with
  | zero => exact Eq.refl _
  | succ n ih =>
    have hone : feed s [27,91,67] = { s with column := s.column + 1 } := by
      obtain ⟨row,column,pending⟩ := s
      cases hs
      exact Eq.refl _
    have hrest := ih (s := { s with column := s.column + 1 }) hs
    rw [List.replicate_succ, List.flatten_cons, feed_append, hone, hrest]
    dsimp only
    rw [Nat.add_assoc, Nat.add_comm 1]

/-- A carriage return, and the row erased. -/
theorem feed_erase {s : Screen} (hs : s.pending = .ground) : feed s [13,27,91,50,75] = ⟨[],0,.ground⟩ := by
  obtain ⟨row,column,pending⟩ := s
  cases hs
  exact Eq.refl _

theorem feed_newLine {s : Screen} (hs : s.pending = .ground) : feed s [13,10] = ⟨[],0,.ground⟩ := by
  obtain ⟨row,column,pending⟩ := s
  cases hs
  exact Eq.refl _

theorem feed_bell {s : Screen} (hs : s.pending = .ground) : feed s [7] = s := by
  obtain ⟨row,column,pending⟩ := s
  cases hs
  exact Eq.refl _

end

end Terminal
