import Bvstk.Cli.LineEditor
import Mathlib.Logic.Function.Iterate

/-! # What a line editor is

A line with a cursor, the text that was cut last, and the lines submitted before: no buffers, and
no terminal. The laws that its operator relies on hold here.
-/
namespace Bvstk.Cli

structure Reference where
  text : Text
  cursor : ℕ
  kill : Text
  history : List Text
  /-- The entry of the history that is shown, if one is. -/
  position : Option ℕ
  /-- The line that was edited before an entry was shown. -/
  saved : Text

namespace Reference

def empty : Reference := ⟨[],0,[],[],none,[]⟩

/-- The characters from `start` to `stop` are replaced, with the cursor behind the new ones. -/
def splice (start stop : ℕ) (new : Text) (r : Reference) : Reference :=
  { r with text := r.text.take start ++ new ++ r.text.drop stop, cursor := start + new.length, position := none }

/-- The start of the word before the end of a text. -/
def wordStart (front : Text) : ℕ := ((front.rdropWhile isSpace).rdropWhile fun c => !isSpace c).length

/-- How far it is to the next word, over the rest of this one. -/
def nextWord (rest : Text) : ℕ :=
  (rest.takeWhile fun c => !isSpace c).length + ((rest.dropWhile fun c => !isSpace c).takeWhile isSpace).length

/-- How far it is to the end of the next word, over the blanks before it. -/
def wordEnd (rest : Text) : ℕ :=
  (rest.takeWhile isSpace).length + ((rest.dropWhile isSpace).takeWhile fun c => !isSpace c).length

def moveLeft (word : Bool) (r : Reference) : Reference :=
  { r with cursor := if word = true then wordStart (r.text.take r.cursor) else r.cursor - 1 }

def moveRight (word : Bool) (r : Reference) : Reference :=
  if r.text.length ≤ r.cursor then r
  else { r with cursor := r.cursor + if word = true then nextWord (r.text.drop r.cursor) else 1 }

def insert (c : UInt8) (r : Reference) : Reference := if r.text.length + 1 < lineMax then r.splice r.cursor r.cursor [c] else r

def backspace (r : Reference) : Reference := if r.cursor = 0 then r else r.splice (r.cursor - 1) r.cursor []

def delete (r : Reference) : Reference := if r.text.length ≤ r.cursor then r else r.splice r.cursor (r.cursor + 1) []

/-- A part that is not empty is cut out. -/
def cut (start stop : ℕ) (r : Reference) : Reference :=
  if stop ≤ start ∨ r.text.length < stop then r
  else { r.splice start stop [] with kill := (r.text.drop start).take (stop - start) }

def paste (r : Reference) : Reference :=
  if r.kill = [] ∨ lineMax ≤ r.text.length + r.kill.length then r else r.splice r.cursor r.cursor r.kill

def recallLine (n : ℕ) (r : Reference) : Reference :=
  { r with position := some n, text := r.history.getD n [], cursor := (r.history.getD n []).length }

def up (r : Reference) : Reference :=
  if r.history = [] then r
  else match r.position with
    | none => recallLine (r.history.length - 1) { r with saved := r.text }
    | some 0 => r
    | some (n + 1) => r.recallLine n

def down (r : Reference) : Reference :=
  match r.position with
  | none => r
  | some n =>
    if n + 1 < r.history.length then r.recallLine (n + 1)
    else { r with position := none, text := r.saved, cursor := r.saved.length }

/-- A line is added to those before it, unless it is empty or the last one again; the oldest makes room. -/
def remember (text : Text) (history : List Text) : List Text :=
  if text = [] ∨ history.getLast? = some text then history else history.rtake (historyMax - 1) ++ [text]

def reset (r : Reference) : Reference := { r with text := [], cursor := 0, position := none }

def replace (start : ℕ) (replacement : Text) (appendSpace : Bool) (r : Reference) : Reference :=
  let new := replacement ++ if spaceFollows replacement appendSpace = true then [32] else []
  if start + new.length + (r.text.length - r.cursor) < lineMax then r.splice start r.cursor new else r

theorem completionMaxMatches_pos : 0 < completionMaxMatches := by decide

def complete (answer : Option Completion) (r : Reference) : Reference :=
  match answer with
  | none => r
  | some c =>
    if c.matchCount = 0 ∨ completionMaxMatches < c.matchCount ∨ r.cursor < c.tokenStart ∨
        c.tokenPrefixLength ≠ r.cursor - c.tokenStart then r
    else
      let first := (c.candidates ⟨0,completionMaxMatches_pos⟩).text
      let prefixLength := commonPrefixLength c.words
      if c.matchCount = 1 then r.replace c.tokenStart first true
      else if c.tokenPrefixLength < prefixLength then r.replace c.tokenStart (first.take prefixLength) false
      else r

def perform (answers : Answers) (operation : Operation) (r : Reference) : Reference :=
  match operation with
  | .nothing | .beep | .redraw => r
  | .historyUp => r.up
  | .historyDown => r.down
  | .home => { r with cursor := 0 }
  | .toEnd => { r with cursor := r.text.length }
  | .delete | .deleteOrEnd => r.delete
  | .backspace => r.backspace
  | .deletePreviousWord => r.cut (wordStart (r.text.take r.cursor)) r.cursor
  | .deleteNextWord => r.cut r.cursor (r.cursor + wordEnd (r.text.drop r.cursor))
  | .cutToEnd => r.cut r.cursor r.text.length
  | .cutToStart => r.cut 0 r.cursor
  | .paste => r.paste
  | .complete => r.complete answers.completion
  | .submit => { r with history := remember r.text r.history }.reset
  | .interrupt => r.reset
  | .moveLeft word => r.moveLeft word
  | .moveRight word => r.moveRight word
  | .insert c => r.insert c

/-- A byte, where an escape sequence is read in front of the line. -/
def handleByte (answers : Answers) (s : EscapeState × Text × Reference) (c : UInt8) : EscapeState × Text × Reference :=
  let (state,parameters,operation) := decode s.1 s.2.1 c
  (state,parameters,s.2.2.perform answers operation)

/-! ## Cut and paste -/

/-- A part that was cut is back when it is pasted where it was. -/
theorem paste_cut {r : Reference} {start stop : ℕ} (hlt : start < stop) (hstop : stop ≤ r.text.length)
    (hroom : r.text.length < lineMax) :
    (r.cut start stop).paste.text = r.text ∧ (r.cut start stop).paste.cursor = stop := by
  obtain ⟨n,rfl⟩ := Nat.exists_eq_add_of_lt hlt
  have hcut : r.cut start (start + n + 1) = { r.splice start (start + n + 1) [] with kill := (r.text.drop start).take (n + 1) } := by
    have hne : ¬(start + n + 1 ≤ start ∨ r.text.length < start + n + 1) := by omega
    have hlength : start + n + 1 - start = n + 1 := by omega
    rw [cut, if_neg hne, hlength]
  have htake : (r.text.take start).length = start := List.length_take_of_le (by omega)
  have hkill : ((r.text.drop start).take (n + 1)).length = n + 1 := by
    rw [List.length_take, List.length_drop]
    omega
  have hfits : ¬((r.text.drop start).take (n + 1) = [] ∨
      lineMax ≤ (r.text.take start ++ [] ++ r.text.drop (start + n + 1)).length + ((r.text.drop start).take (n + 1)).length) := by
    rw [not_or, ← List.length_eq_zero_iff, hkill, List.append_nil, List.length_append, htake, List.length_drop]
    omega
  rw [hcut, paste, splice, if_neg hfits, splice]
  dsimp only [List.length_nil]
  rw [List.append_nil, Nat.add_zero, List.take_left' htake, List.drop_left' htake, hkill, Nat.add_assoc, ← List.drop_drop,
    List.append_assoc, List.take_append_drop, List.take_append_drop]
  exact ⟨rfl,Nat.add_assoc start n 1⟩

/-! ## Walking through the history -/

/-- The n-th line from the end of the history is shown. -/
theorem up_iterate {r : Reference} (hposition : r.position = none) {n : ℕ} (hn : n < r.history.length) :
    up^[n + 1] r = recallLine (r.history.length - (n + 1)) { r with saved := r.text } := by
  have hne : r.history ≠ [] := List.ne_nil_of_length_pos (Nat.zero_lt_of_lt hn)
  induction n with
  | zero =>
    rw [Function.iterate_one, up, if_neg hne, hposition]
  | succ n ih =>
    obtain ⟨k,hk⟩ : ∃ k, r.history.length - (n + 1) = k + 1 := ⟨r.history.length - (n + 2),by omega⟩
    have hk' : r.history.length - (n + 1 + 1) = k := by omega
    rw [Function.iterate_succ_apply', ih (Nat.lt_of_succ_lt hn), hk, hk']
    exact if_neg hne

theorem down_iterate {r : Reference} {n k : ℕ} (h : n + k < r.history.length) : down^[k] (r.recallLine n) = r.recallLine (n + k) := by
  induction k with
  | zero => exact Eq.refl _
  | succ k ih =>
    rw [Function.iterate_succ_apply', ih (Nat.lt_of_succ_lt h), down]
    exact if_pos h

/-- As many lines down as up, the line that was edited is back. -/
theorem down_up {r : Reference} (hposition : r.position = none) {n : ℕ} (hn : n < r.history.length) :
    down^[n + 1] (up^[n + 1] r) = { r with saved := r.text, cursor := r.text.length } := by
  have hlast : r.history.length - (n + 1) + n < r.history.length := by omega
  have hend : ¬r.history.length - (n + 1) + n + 1 < r.history.length := by omega
  have hdown : down (recallLine (r.history.length - (n + 1) + n) { r with saved := r.text }) =
      { r with saved := r.text, cursor := r.text.length, position := none } := if_neg hend
  rw [up_iterate hposition hn, Function.iterate_succ_apply', down_iterate (r := { r with saved := r.text }) hlast, hdown,
    hposition]

/-! ## The history of a run -/

/-- Only a line that is submitted changes the history. -/
theorem perform_history (answers : Answers) {operation : Operation} (h : operation ≠ .submit) (r : Reference) :
    (r.perform answers operation).history = r.history := by
  have hsplice (start stop : ℕ) (new : Text) : (r.splice start stop new).history = r.history := rfl
  have hif {p : Prop} [Decidable p] {r' : Reference} (h : r'.history = r.history) :
      (if p then r' else r).history = r.history := by
    split
    · exact h
    · exact Eq.refl _
  have hcut (start stop : ℕ) : (r.cut start stop).history = r.history := by
    rw [cut]
    split
    · exact Eq.refl _
    · exact Eq.refl _
  have hreplace (start : ℕ) (replacement : Text) (appendSpace : Bool) :
      (r.replace start replacement appendSpace).history = r.history := hif (hsplice _ _ _)
  have hdelete : r.delete.history = r.history := by
    rw [delete]
    split
    · exact Eq.refl _
    · exact hsplice _ _ _
  cases operation with
  | nothing => exact Eq.refl _
  | beep => exact Eq.refl _
  | redraw => exact Eq.refl _
  | historyUp =>
    rw [perform, up]
    split
    · exact Eq.refl _
    · split
      · exact Eq.refl _
      · exact Eq.refl _
      · exact Eq.refl _
  | historyDown =>
    rw [perform, down]
    split
    · exact Eq.refl _
    · split
      · exact Eq.refl _
      · exact Eq.refl _
  | home => exact Eq.refl _
  | toEnd => exact Eq.refl _
  | delete => exact hdelete
  | deleteOrEnd => exact hdelete
  | backspace =>
    rw [perform, backspace]
    split
    · exact Eq.refl _
    · exact hsplice _ _ _
  | deletePreviousWord => exact hcut _ _
  | deleteNextWord => exact hcut _ _
  | cutToEnd => exact hcut _ _
  | cutToStart => exact hcut _ _
  | paste =>
    rw [perform, paste]
    split
    · exact Eq.refl _
    · exact hsplice _ _ _
  | complete =>
    unfold perform complete
    dsimp only
    split
    · exact Eq.refl _
    split
    · exact Eq.refl _
    split
    · exact hreplace _ _ _
    split
    · exact hreplace _ _ _
    · exact Eq.refl _
  | submit => exact absurd rfl h
  | interrupt => exact Eq.refl _
  | moveLeft word => exact Eq.refl _
  | moveRight word =>
    rw [perform, moveRight]
    split
    · exact Eq.refl _
    · exact Eq.refl _
  | insert c => exact hif (hsplice _ _ _)

/-- Lines that are not empty, without those that repeat the one before. -/
def collapse (lines : List Text) : List Text :=
  lines.foldl (fun kept line => if line = [] ∨ kept.getLast? = some line then kept else kept ++ [line]) []

theorem collapse_append (lines : List Text) (line : Text) :
    collapse (lines ++ [line]) =
      if line = [] ∨ (collapse lines).getLast? = some line then collapse lines else collapse lines ++ [line] := List.foldl_append

theorem getLast?_rtake (l : List Text) {n : ℕ} (hn : 0 < n) : (l.rtake n).getLast? = l.getLast? := by
  rw [List.rtake_eq_reverse_take_reverse, List.getLast?_reverse, List.head?_take, if_neg (Nat.ne_of_gt hn), List.head?_reverse]

theorem rtake_rtake (l : List Text) {m n : ℕ} (h : m ≤ n) : (l.rtake n).rtake m = l.rtake m := by
  simp only [List.rtake_eq_reverse_take_reverse, List.reverse_reverse, List.take_take, Nat.min_eq_left h]

/-- The last lines kept, of those submitted. -/
theorem remember_collapse (lines : List Text) (line : Text) :
    remember line ((collapse lines).rtake historyMax) = (collapse (lines ++ [line])).rtake historyMax := by
  have hmax : historyMax = historyMax - 1 + 1 := rfl
  rw [remember, getLast?_rtake _ (by decide), collapse_append]
  split
  · exact Eq.refl _
  · rw [rtake_rtake _ (Nat.sub_le _ _), hmax, List.rtake_concat_succ]
    exact Eq.refl _

end Reference

end Bvstk.Cli
