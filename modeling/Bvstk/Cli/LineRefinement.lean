import Bvstk.Cli.LineReference

/-! # The editor is a line editor

Every function of the editor keeps its buffers in order, and does to what they hold what the
reference does. With `P` for the characters that may be in a line this holds whatever they are, as
long as NUL is none of them.
-/
namespace Bvstk.Cli
open TextBuffer

/-! ## Buffers in order -/

/-- A text of `n` characters with its NUL, in a buffer of `lineMax`. -/
structure Stored (P : UInt8 → Prop) (b : Buffer) (n : ℕ) : Prop where
  short : n < lineMax
  terminated : b n = 0
  all : ∀ c ∈ read b n, P c

structure Sound (P : UInt8 → Prop) (e : Editor) : Prop where
  cursor : e.cursor ≤ e.lineLength
  line : Stored P e.line e.lineLength
  cut : Stored P e.cutBuffer e.cutLength
  scratch : Stored P e.historyScratch e.historyScratchLength
  count : e.historyCount ≤ historyMax
  history : ∀ i < e.historyCount, Stored P (e.history i) (cString (e.history i)).length
  valid : e.historyPosition = -1 ∨ (0 ≤ e.historyPosition ∧ e.historyPosition < e.historyCount)

/-- The lines of the history, from the oldest. -/
def entries (e : Editor) : List Text := read (fun i => cString (e.history i)) e.historyCount

def position (e : Editor) : Option ℕ := if e.historyPosition < 0 then none else some e.historyPosition.toNat

/-- What the buffers hold. -/
def view (e : Editor) : Reference :=
  ⟨read e.line e.lineLength,e.cursor,read e.cutBuffer e.cutLength,entries e,position e,
    read e.historyScratch e.historyScratchLength⟩

/-- The editor is in order, it holds `r`, and an escape sequence goes on as before. -/
structure Refined (P : UInt8 → Prop) (e e' : Editor) (r : Reference) : Prop where
  sound : Sound P e'
  holds : view e' = r
  state : e'.escapeState = e.escapeState
  parameters : e'.escapeParameters = e.escapeParameters

section
variable {P : UInt8 → Prop} {b : Buffer} {n : ℕ}

theorem Stored.settled (hn : n < lineMax) (hall : ∀ c ∈ read b n, P c) : Stored P (store b n 0) n := by
  refine ⟨hn,store_self b n 0,?_⟩
  rwa [read_store b n (Nat.le_refl n)]

theorem stored_zero (b : Buffer) (hb : b 0 = 0) : Stored P b 0 := ⟨Nat.zero_lt_succ _,hb,nofun⟩

/-- A text is copied with its NUL. -/
theorem read_copied (a : Buffer) : read (copy a 0 b (n + 1)) n = read b n := by
  have htake := congrArg (List.take n) (read_copy_zero a (n + 1) b)
  rwa [take_read _ _ (Nat.le_succ n), take_read _ _ (Nat.le_succ n)] at htake

theorem Stored.copied (h : Stored P b n) (a : Buffer) : Stored P (copy a 0 b (n + 1)) n := by
  refine ⟨h.short,?_,?_⟩
  · have hin := copy_in a 0 (n + 1) b (Nat.lt_succ_self n)
    rw [Nat.zero_add] at hin
    rw [hin, h.terminated]
  · rw [read_copied a]
    exact h.all

/-- As a string a stored text is itself. -/
theorem Stored.cString (hP : ¬P 0) (h : Stored P b n) : cString b = read b n :=
  upTo_eq h.short h.terminated fun hmem => hP (h.all 0 hmem)

theorem Stored.of_cString (h : Stored P b n) (hP : ¬P 0) : Stored P b (Cli.cString b).length := by
  rwa [h.cString hP, length_read]

end

section
variable {P : UInt8 → Prop} {e : Editor}

@[simp] theorem view_text (e : Editor) : (view e).text = read e.line e.lineLength := rfl
@[simp] theorem view_cursor (e : Editor) : (view e).cursor = e.cursor := rfl
@[simp] theorem view_kill (e : Editor) : (view e).kill = read e.cutBuffer e.cutLength := rfl
@[simp] theorem view_history (e : Editor) : (view e).history = entries e := rfl
@[simp] theorem view_position (e : Editor) : (view e).position = position e := rfl
@[simp] theorem view_saved (e : Editor) : (view e).saved = read e.historyScratch e.historyScratchLength := rfl

theorem Refined.unchanged (h : Sound P e) : Refined P e e (view e) := ⟨h,rfl,rfl,rfl⟩

theorem init_sound : Sound P init where
  cursor := Nat.le_refl 0
  line := stored_zero _ rfl
  cut := stored_zero _ rfl
  scratch := stored_zero _ rfl
  count := Nat.zero_le _
  history i hi := absurd hi (Nat.not_lt_zero i)
  valid := Or.inl rfl

theorem view_init : view init = Reference.empty := rfl

/-- A new line is put in its place, with its NUL. -/
theorem Sound.settle (h : Sound P e) {b : Buffer} {n c : ℕ} (hn : n < lineMax) (hall : ∀ x ∈ read b n, P x) (hc : c ≤ n) :
    Refined P e (markEdited { e with line := store b n 0, lineLength := n, cursor := c })
      { view e with text := read b n, cursor := c, position := none } := by
  refine ⟨⟨hc,Stored.settled hn hall,h.cut,h.scratch,h.count,h.history,Or.inl rfl⟩,?_,rfl,rfl⟩
  have hread := read_store b n (Nat.le_refl n) (0 : UInt8)
  unfold view markEdited
  dsimp only
  rw [hread]
  exact Eq.refl _

theorem Sound.moved (h : Sound P e) {c : ℕ} (hc : c ≤ e.lineLength) :
    Refined P e { e with cursor := c } { view e with cursor := c } :=
  ⟨⟨hc,h.line,h.cut,h.scratch,h.count,h.history,h.valid⟩,rfl,rfl,rfl⟩

/-! ## The cursor -/

theorem moveTo_refined (h : Sound P e) (config : Config) {c : ℕ} (hc : c ≤ e.lineLength) :
    Refined P e (moveTo config c e).1 { view e with cursor := c } := h.moved hc

theorem moveLeft_refined (h : Sound P e) (word : Bool) : Refined P e (moveLeft word e).1 ((view e).moveLeft word) := by
  unfold moveLeft Reference.moveLeft
  by_cases hzero : e.cursor = 0
  · rw [if_pos hzero]
    have hcursor : (if word = true then Reference.wordStart ((view e).text.take (view e).cursor) else (view e).cursor - 1) =
        (view e).cursor := by
      rw [view_cursor, hzero]
      cases word <;> exact Eq.refl _
    rw [hcursor]
    exact Refined.unchanged h
  · rw [if_neg hzero, view_text, view_cursor, take_read _ _ h.cursor]
    cases word with
    | false => exact h.moved (Nat.le_trans (Nat.sub_le _ _) h.cursor)
    | true =>
      have hstart := skipLeft_skipLeft isSpace e.line (fun c => !isSpace c) e.cursor
      have hle := Nat.le_trans (skipLeft_le (fun c => !isSpace c) e.line _) (skipLeft_le isSpace e.line e.cursor)
      have hmoved := h.moved (Nat.le_trans hle h.cursor)
      rw [hstart] at hmoved
      rw [if_pos rfl, if_pos rfl, hstart]
      exact hmoved

theorem moveRight_refined (h : Sound P e) (word : Bool) : Refined P e (moveRight word e).1 ((view e).moveRight word) := by
  unfold moveRight Reference.moveRight
  rw [view_text, view_cursor, length_read]
  by_cases hend : e.lineLength ≤ e.cursor
  · rw [if_pos hend, if_pos hend]
    exact Refined.unchanged h
  · rw [if_neg hend, if_neg hend]
    cases word with
    | false => exact h.moved (Nat.lt_of_not_le hend)
    | true =>
      have hnext := skipRight_skipRight (fun c => !isSpace c) e.line isSpace h.cursor
      have hle := skipRight_skipRight_le (fun c => !isSpace c) e.line isSpace h.cursor
      have hmoved := h.moved hle
      rw [hnext] at hmoved
      rw [if_pos rfl, if_pos rfl]
      dsimp only
      rw [hnext]
      exact hmoved

/-! ## The line -/

/-- Characters of a text that is put together from parts of texts. -/
theorem all_splice {text new : Text} (htext : ∀ c ∈ text, P c) (hnew : ∀ c ∈ new, P c) (start stop : ℕ) :
    ∀ c ∈ text.take start ++ new ++ text.drop stop, P c := by
  intro c hc
  rcases List.mem_append.mp hc with hc | hc
  · rcases List.mem_append.mp hc with hc | hc
    · exact htext c (List.mem_of_mem_take hc)
    · exact hnew c hc
  · exact htext c (List.mem_of_mem_drop hc)

/-- A line that holds the text of a splice is put in its place. -/
theorem Sound.splice (h : Sound P e) {b : Buffer} {n c start stop : ℕ} {new : Text}
    (hread : read b n = (read e.line e.lineLength).take start ++ new ++ (read e.line e.lineLength).drop stop)
    (hn : n < lineMax) (hnew : ∀ x ∈ new, P x) (hc : c = start + new.length) (hle : c ≤ n) :
    Refined P e (markEdited { e with line := store b n 0, lineLength := n, cursor := c }) ((view e).splice start stop new) := by
  have hall : ∀ x ∈ read b n, P x := by
    rw [hread]
    exact all_splice h.line.all hnew start stop
  have hsettle := h.settle hn hall hle
  rw [hread, hc] at hsettle
  rw [hc]
  exact hsettle

theorem insert_refined (h : Sound P e) {c : UInt8} (hc : P c) : Refined P e (insert c e).1 ((view e).insert c) := by
  unfold insert Reference.insert
  rw [view_text, view_cursor, length_read]
  by_cases hfull : lineMax ≤ e.lineLength + 1
  · rw [if_pos hfull, if_neg (Nat.not_lt_of_le hfull)]
    exact Refined.unchanged h
  · rw [if_neg hfull, if_pos (Nat.lt_of_not_le hfull)]
    have hread := read_insert e.line e.lineLength h.cursor c
    exact h.splice hread (Nat.lt_of_not_le hfull) (List.forall_mem_singleton.mpr hc) rfl (Nat.succ_le_succ h.cursor)

theorem takeOut_refined (h : Sound P e) (config : Config) (hcursor : e.cursor < e.lineLength) :
    Refined P e (takeOut config e).1 ((view e).splice e.cursor (e.cursor + 1) []) := by
  have hlength : e.cursor + (e.lineLength - (e.cursor + 1)) = e.lineLength - 1 := by omega
  have hread := read_cut e.line e.cursor (Nat.le_succ e.cursor) hcursor
  rw [hlength] at hread
  have happend : read (copy e.line e.cursor (fun i => e.line (e.cursor + 1 + i)) (e.lineLength - (e.cursor + 1))) (e.lineLength - 1) =
      (read e.line e.lineLength).take e.cursor ++ [] ++ (read e.line e.lineLength).drop (e.cursor + 1) := by
    rw [hread, List.append_nil]
  exact h.splice happend (Nat.lt_of_le_of_lt (Nat.sub_le _ _) h.line.short) nofun rfl (Nat.le_pred_of_lt hcursor)

theorem delete_refined (h : Sound P e) (config : Config) : Refined P e (delete config e).1 (view e).delete := by
  unfold delete Reference.delete
  rw [view_text, view_cursor, length_read]
  split
  · exact Refined.unchanged h
  · rename_i hcursor
    exact takeOut_refined h config (Nat.lt_of_not_le hcursor)

theorem backspace_refined (h : Sound P e) (config : Config) : Refined P e (backspace config e).1 (view e).backspace := by
  unfold backspace Reference.backspace
  rw [view_cursor]
  split
  · exact Refined.unchanged h
  · rename_i hcursor
    have hpos := Nat.pos_of_ne_zero hcursor
    have hmoved := h.moved (Nat.le_trans (Nat.sub_le e.cursor 1) h.cursor)
    have hlt : e.cursor - 1 < e.lineLength := Nat.lt_of_lt_of_le (Nat.sub_lt hpos Nat.one_pos) h.cursor
    have hout := takeOut_refined hmoved.sound config hlt
    have hview : (view { e with cursor := e.cursor - 1 }).splice (e.cursor - 1) (e.cursor - 1 + 1) [] =
        (view e).splice (e.cursor - 1) e.cursor [] := by
      rw [Nat.sub_add_cancel hpos]
      exact Eq.refl _
    exact ⟨hout.sound,hout.holds.trans hview,rfl,rfl⟩

/-! ## The cut buffer -/

theorem Sound.withCut (h : Sound P e) {b : Buffer} {n : ℕ} (hn : n < lineMax) (hall : ∀ x ∈ read b n, P x) :
    Refined P e { e with cutLength := n, cutBuffer := store b n 0 } { view e with kill := read b n } := by
  refine ⟨⟨h.cursor,h.line,Stored.settled hn hall,h.scratch,h.count,h.history,h.valid⟩,?_,rfl,rfl⟩
  have hread := read_store b n (Nat.le_refl n) (0 : UInt8)
  unfold view
  dsimp only
  rw [hread]
  exact Eq.refl _

theorem cutRange_refined (h : Sound P e) (config : Config) (start stop : ℕ) :
    Refined P e (cutRange config start stop e).1 ((view e).cut start stop) := by
  unfold cutRange Reference.cut
  rw [view_text, length_read]
  split
  · exact Refined.unchanged h
  · rename_i hrange
    obtain ⟨hlt,hle⟩ := not_or.mp hrange
    have hstart : start ≤ stop := Nat.le_of_lt (Nat.lt_of_not_le hlt)
    have hstop : stop ≤ e.lineLength := Nat.le_of_not_lt hle
    have hshort : stop - start < lineMax := Nat.lt_of_le_of_lt (Nat.le_trans (Nat.sub_le _ _) hstop) h.line.short
    -- what is cut out
    have hkill : read (copy e.cutBuffer 0 (fun i => e.line (start + i)) (stop - start)) (stop - start) =
        ((read e.line e.lineLength).drop start).take (stop - start) := by
      rw [read_copy_zero, drop_read _ _ (Nat.le_trans hstart hstop), take_read _ _ (Nat.sub_le_sub_right hstop start)]
    have hcut := h.withCut hshort (by
      rw [hkill]
      exact fun x hx => h.line.all x (List.mem_of_mem_drop (List.mem_of_mem_take hx)))
    -- what is left
    have hread := read_cut e.line start hstart hstop
    have hlength : start + (e.lineLength - stop) = e.lineLength - (stop - start) := by omega
    rw [hlength, ← List.append_nil (List.take start (read e.line e.lineLength))] at hread
    have hfits : start ≤ e.lineLength - (stop - start) := by omega
    have hleft := hcut.sound.splice (c := start) hread (Nat.lt_of_le_of_lt (Nat.sub_le _ _) h.line.short) nofun rfl hfits
    rw [if_neg (Nat.not_le_of_lt hshort)]
    refine ⟨hleft.sound,hleft.holds.trans ?_,rfl,rfl⟩
    rw [hcut.holds, hkill]
    exact Eq.refl _

theorem deletePreviousWord_refined (h : Sound P e) (config : Config) :
    Refined P e (deletePreviousWord config e).1
      ((view e).cut (Reference.wordStart ((view e).text.take (view e).cursor)) (view e).cursor) := by
  unfold deletePreviousWord
  split
  · rename_i hzero
    have hcut : (view e).cut (Reference.wordStart ((view e).text.take (view e).cursor)) (view e).cursor = view e := by
      rw [view_cursor, hzero]
      exact if_pos (Or.inl (Nat.zero_le _))
    rw [hcut]
    exact Refined.unchanged h
  · rw [skipLeft_skipLeft, ← take_read e.line e.lineLength h.cursor]
    exact cutRange_refined h config _ _

theorem deleteNextWord_refined (h : Sound P e) (config : Config) :
    Refined P e (deleteNextWord config e).1
      ((view e).cut (view e).cursor ((view e).cursor + Reference.wordEnd ((view e).text.drop (view e).cursor))) := by
  unfold deleteNextWord
  split
  · rename_i hend
    have hcursor : e.cursor = e.lineLength := Nat.le_antisymm h.cursor hend
    have hrest : (view e).text.drop (view e).cursor = [] := by
      rw [view_text, view_cursor, hcursor]
      exact List.drop_of_length_le (Nat.le_of_eq (length_read _ _))
    have hcut : (view e).cut (view e).cursor ((view e).cursor + Reference.wordEnd ((view e).text.drop (view e).cursor)) = view e := by
      rw [hrest]
      exact if_pos (Or.inl (Nat.le_refl _))
    rw [hcut]
    exact Refined.unchanged h
  · dsimp only
    rw [skipRight_skipRight _ _ _ h.cursor]
    exact cutRange_refined h config _ _

theorem pasteCutBuffer_refined (h : Sound P e) (config : Config) : Refined P e (pasteCutBuffer config e).1 (view e).paste := by
  have hnil : read e.cutBuffer e.cutLength = [] ↔ e.cutLength = 0 := by
    rw [← List.length_eq_zero_iff, length_read]
  have hfull : (view e).kill = [] ∨ lineMax ≤ (view e).text.length + (view e).kill.length ↔
      e.cutLength = 0 ∨ lineMax ≤ e.lineLength + e.cutLength := by
    rw [view_text, view_kill, length_read, length_read, hnil]
  unfold pasteCutBuffer Reference.paste
  split
  · rename_i hno
    rw [if_pos (hfull.mpr hno)]
    exact Refined.unchanged h
  · rename_i hroom
    rw [if_neg (mt hfull.mp hroom)]
    have hread := read_splice e.line e.cursor e.cutLength e.cutBuffer (Nat.le_refl e.cursor) h.cursor
    have hcursor := h.cursor
    have hlength : e.cursor + e.cutLength + (e.lineLength - e.cursor) = e.lineLength + e.cutLength := by omega
    rw [hlength] at hread
    refine h.splice hread (Nat.lt_of_not_le (not_or.mp hroom).2) h.cut.all ?_ (by omega)
    rw [view_cursor, view_kill, length_read]

/-! ## Completion -/

theorem read_getD (text : Text) : read (fun i => text.getD i 0) text.length = text := by
  apply List.ext_getElem (length_read _ _)
  intro i hi hi'
  rw [getElem_read, List.getD_eq_getElem?_getD, List.getElem?_eq_getElem hi']
  exact Eq.refl _

theorem replace_refined (h : Sound P e) (config : Config) (hspace : P 32) {start prefixLength : ℕ} {replacement : Text}
    (hreplacement : ∀ c ∈ replacement, P c) (appendSpace : Bool) (hstart : start ≤ e.cursor)
    (hlength : prefixLength = e.cursor - start) :
    Refined P e (replace config start prefixLength replacement appendSpace e).1
      ((view e).replace start replacement appendSpace) := by
  have hrange : ¬(e.cursor < start ∨ prefixLength ≠ e.cursor - start) :=
    not_or.mpr ⟨Nat.not_lt_of_le hstart,not_not.mpr hlength⟩
  have hread := read_splice e.line start replacement.length (fun i => replacement.getD i 0) hstart h.cursor
  rw [read_getD] at hread
  unfold replace Reference.replace
  rw [if_neg hrange, view_text, view_cursor, length_read]
  dsimp only
  cases hfollows : spaceFollows replacement appendSpace with
  | false =>
    rw [if_neg Bool.false_ne_true, if_neg Bool.false_ne_true, if_neg Bool.false_ne_true, List.append_nil]
    split
    · rename_i hfull
      rw [if_neg (Nat.not_lt_of_le hfull)]
      exact Refined.unchanged h
    · rename_i hroom
      rw [if_pos (Nat.lt_of_not_le hroom)]
      exact h.splice hread (Nat.lt_of_not_le hroom) hreplacement rfl (Nat.le_add_right _ _)
  | true =>
    have hnew : start + (replacement ++ [32]).length + (e.lineLength - e.cursor) =
        start + replacement.length + (e.lineLength - e.cursor) + 1 := by
      rw [List.length_append, List.length_singleton]
      omega
    rw [if_pos rfl, if_pos rfl, if_pos rfl, hnew]
    split
    · rename_i hfull
      rw [if_neg (Nat.not_lt_of_le hfull)]
      exact Refined.unchanged h
    · rename_i hroom
      rw [if_pos (Nat.lt_of_not_le hroom)]
      -- the space is put in as a character is
      have hinsert := read_insert (copy (copy e.line (start + replacement.length) (fun i => e.line (e.cursor + i))
        (e.lineLength - e.cursor)) start (fun i => replacement.getD i 0) replacement.length)
        (start + replacement.length + (e.lineLength - e.cursor)) (Nat.le_add_right (start + replacement.length) _) 32
      have hfront : ((read e.line e.lineLength).take start ++ replacement).length = start + replacement.length := by
        rw [List.length_append, List.length_take, length_read, Nat.min_eq_left (Nat.le_trans hstart h.cursor)]
      rw [hread, Nat.add_sub_cancel_left, List.take_left' hfront, List.drop_left' hfront, List.append_assoc _ replacement] at hinsert
      refine h.splice hinsert (Nat.lt_of_not_le hroom) ?_ ?_ (by omega)
      · intro c hc
        rcases List.mem_append.mp hc with hc | hc
        · exact hreplacement c hc
        · rwa [List.mem_singleton.mp hc]
      · rw [List.length_append, List.length_singleton, Nat.add_assoc]

/-- The words that are offered are of characters that may be in a line. -/
def Offers (P : UInt8 → Prop) (answer : Option Completion) : Prop := ∀ c ∈ answer, ∀ i, ∀ x ∈ (c.candidates i).text, P x

theorem complete_refined (h : Sound P e) (config : Config) (hspace : P 32) {answer : Option Completion}
    (hanswer : Offers P answer) : Refined P e (complete config answer e).1 ((view e).complete answer) := by
  cases answer with
  | none => exact Refined.unchanged h
  | some c =>
    have hfirst : ∀ x ∈ (c.candidates ⟨0,by decide⟩).text, P x := hanswer c rfl _
    unfold complete Reference.complete
    dsimp only
    rw [view_cursor]
    by_cases hcount : c.matchCount = 0 ∨ completionMaxMatches < c.matchCount
    · rw [if_pos hcount, if_pos (hcount.imp_right Or.inl)]
      exact Refined.unchanged h
    by_cases hrange : e.cursor < c.tokenStart ∨ c.tokenPrefixLength ≠ e.cursor - c.tokenStart
    · rw [if_neg hcount, if_pos hrange, if_pos (Or.inr (Or.inr hrange))]
      exact Refined.unchanged h
    have hgood : ¬(c.matchCount = 0 ∨ completionMaxMatches < c.matchCount ∨ e.cursor < c.tokenStart ∨
        c.tokenPrefixLength ≠ e.cursor - c.tokenStart) := by
      rw [← or_assoc]
      exact not_or.mpr ⟨hcount,hrange⟩
    have hstart : c.tokenStart ≤ e.cursor := Nat.le_of_not_lt (not_or.mp hrange).1
    have hlength : c.tokenPrefixLength = e.cursor - c.tokenStart := not_not.mp (not_or.mp hrange).2
    rw [if_neg hcount, if_neg hrange, if_neg hgood]
    split
    · exact replace_refined h config hspace hfirst true hstart hlength
    split
    · exact replace_refined h config hspace (fun x hx => hfirst x (List.mem_of_mem_take hx)) false hstart hlength
    · exact Refined.unchanged h

/-! ## The history -/

theorem setLine_eq {b : Buffer} {n : ℕ} (hn : n < lineMax) :
    setLine e b n = some { e with line := store (copy e.line 0 b n) n 0, lineLength := n, cursor := n } := by
  have hfits : ¬(lineMax ≤ n ∨ n < n) := not_or.mpr ⟨Nat.not_le_of_lt hn,Nat.lt_irrefl n⟩
  exact if_neg hfits

/-- A stored text becomes the line. -/
theorem Sound.setLine (h : Sound P e) {b : Buffer} {n : ℕ} (hb : Stored P b n) :
    Refined P e ((Cli.setLine e b n).getD e) { view e with text := read b n, cursor := n } := by
  have hread := read_copy_zero e.line n b
  have hsettled : Stored P (store (copy e.line 0 b n) n 0) n := Stored.settled hb.short (by
    rw [hread]
    exact hb.all)
  rw [setLine_eq hb.short, Option.getD_some]
  refine ⟨⟨Nat.le_refl n,hsettled,h.cut,h.scratch,h.count,h.history,h.valid⟩,?_,rfl,rfl⟩
  have hstore := read_store (copy e.line 0 b n) n (Nat.le_refl n) (0 : UInt8)
  unfold view
  dsimp only
  rw [hstore, hread]
  exact Eq.refl _

theorem entries_getD {n : ℕ} (hn : n < e.historyCount) : (entries e).getD n [] = cString (e.history n) := by
  have hlt : n < (entries e).length := by
    rw [entries, length_read]
    exact hn
  rw [List.getD_eq_getElem?_getD, List.getElem?_eq_getElem hlt, Option.getD_some]
  exact getElem_read _ _ hlt

theorem recallLine_refined (h : Sound P e) (config : Config) {n : ℕ} (hposition : e.historyPosition = n) (hn : n < e.historyCount) :
    Refined P e (recallLine config e).1 ((view e).recallLine n) := by
  have hrow : e.history e.historyPosition.toNat = e.history n := by
    rw [hposition, Int.toNat_natCast]
  have hset := h.setLine (h.history n hn)
  have hat : position e = some n := by
    rw [position, hposition, if_neg (Int.not_lt.mpr (Int.natCast_nonneg n)), Int.toNat_natCast]
  unfold recallLine Reference.recallLine
  dsimp only
  rw [hrow, view_history, entries_getD hn]
  refine ⟨hset.sound,hset.holds.trans ?_,hset.state,hset.parameters⟩
  have hread : read (e.history n) (cString (e.history n)).length = cString (e.history n) := read_upTo
  rw [hread, ← hat]
  exact Eq.refl _

theorem entries_nil : entries e = [] ↔ e.historyCount = 0 := by
  rw [entries, ← List.length_eq_zero_iff, length_read]

/-- Another entry is at the position. -/
theorem Sound.showing (h : Sound P e) {n : ℕ} (hn : n < e.historyCount) :
    Refined P e { e with historyPosition := n } { view e with position := some n } := by
  refine ⟨⟨h.cursor,h.line,h.cut,h.scratch,h.count,h.history,Or.inr ⟨Int.natCast_nonneg n,Int.ofNat_lt.mpr hn⟩⟩,?_,rfl,rfl⟩
  have hat : position { e with historyPosition := (n : ℤ) } = some n := by
    rw [position, if_neg (Int.not_lt.mpr (Int.natCast_nonneg n)), Int.toNat_natCast]
  unfold view
  rw [hat]
  exact Eq.refl _

/-- The line is kept while an entry is shown. -/
theorem Sound.save (h : Sound P e) :
    Refined P e { e with historyScratch := copy e.historyScratch 0 e.line (e.lineLength + 1), historyScratchLength := e.lineLength }
      { view e with saved := read e.line e.lineLength } := by
  refine ⟨⟨h.cursor,h.line,h.cut,h.line.copied _,h.count,h.history,h.valid⟩,?_,rfl,rfl⟩
  have hread := read_copied (b := e.line) (n := e.lineLength) e.historyScratch
  unfold view
  dsimp only
  rw [hread]
  exact Eq.refl _

/-- The position is that of an entry, or none is shown. -/
theorem Sound.shown (h : Sound P e) :
    (e.historyPosition < 0 ∧ position e = none) ∨
      ∃ n : ℕ, e.historyPosition = n ∧ position e = some n ∧ n < e.historyCount := by
  rcases h.valid with hnone | ⟨hle,hlt⟩
  · have hneg : e.historyPosition < 0 := by omega
    exact Or.inl ⟨hneg,if_pos hneg⟩
  · obtain ⟨n,hn⟩ := Int.eq_ofNat_of_zero_le hle
    refine Or.inr ⟨n,hn,?_,by omega⟩
    rw [position, hn, if_neg (Int.not_lt.mpr (Int.natCast_nonneg n)), Int.toNat_natCast]

theorem historyUp_refined (h : Sound P e) (config : Config) : Refined P e (historyUp config e).1 (view e).up := by
  unfold historyUp Reference.up
  rw [view_history, view_position]
  by_cases hcount : e.historyCount = 0
  · rw [if_pos hcount, if_pos (entries_nil.mpr hcount)]
    exact Refined.unchanged h
  rw [if_neg hcount, if_neg (mt entries_nil.mp hcount)]
  rcases h.shown with ⟨hneg,hnone⟩ | ⟨n,hn,hsome,hlt⟩
  · have hlast : e.historyCount - 1 < e.historyCount := Nat.sub_lt (Nat.pos_of_ne_zero hcount) Nat.one_pos
    have hcast : (e.historyCount : ℤ) - 1 = ((e.historyCount - 1 : ℕ) : ℤ) := by omega
    have hat := h.save.sound.showing hlast
    have hrecall := recallLine_refined hat.sound config rfl hlast
    rw [if_pos hneg, hnone, hcast]
    refine ⟨hrecall.sound,hrecall.holds.trans ?_,hrecall.state,hrecall.parameters⟩
    have hlength : (entries e).length = e.historyCount := by
      rw [entries, length_read]
    rw [hat.holds, h.save.holds]
    dsimp only
    rw [hlength]
    exact Eq.refl _
  · have hpos : ¬e.historyPosition < 0 := by omega
    rw [if_neg hpos, hsome]
    cases n with
    | zero =>
      have hzero : ¬0 < e.historyPosition := by omega
      rw [if_neg hzero]
      exact Refined.unchanged h
    | succ n =>
      have hpred : e.historyPosition - 1 = (n : ℤ) := by omega
      have hat := h.showing (Nat.lt_of_succ_lt hlt)
      have hrecall := recallLine_refined hat.sound config rfl (Nat.lt_of_succ_lt hlt)
      rw [if_pos (by omega), hpred]
      refine ⟨hrecall.sound,hrecall.holds.trans ?_,hrecall.state,hrecall.parameters⟩
      rw [hat.holds]
      exact Eq.refl _

theorem historyDown_refined (h : Sound P e) (config : Config) : Refined P e (historyDown config e).1 (view e).down := by
  unfold historyDown Reference.down
  rw [view_position]
  rcases h.shown with ⟨hneg,hnone⟩ | ⟨n,hn,hsome,hlt⟩
  · rw [if_pos hneg, hnone]
    exact Refined.unchanged h
  have hpos : ¬e.historyPosition < 0 := by omega
  have hlength : (view e).history.length = e.historyCount := by
    rw [view_history, entries, length_read]
  have hnext : (e.historyPosition + 1).toNat = n + 1 := by omega
  rw [if_neg hpos, hsome, hnext]
  dsimp only
  rw [hlength]
  by_cases hmore : n + 1 < e.historyCount
  · have hcast : e.historyPosition + 1 = ((n + 1 : ℕ) : ℤ) := by omega
    have hshowing := h.showing hmore
    have hrecall := recallLine_refined hshowing.sound config rfl hmore
    rw [if_pos hmore, if_pos hmore, hcast]
    refine ⟨hrecall.sound,hrecall.holds.trans ?_,hrecall.state,hrecall.parameters⟩
    rw [hshowing.holds]
    exact Eq.refl _
  · have hedited : Sound P { e with historyPosition := -1 } :=
      ⟨h.cursor,h.line,h.cut,h.scratch,h.count,h.history,Or.inl rfl⟩
    have hset := hedited.setLine h.scratch
    rw [if_neg hmore, if_neg hmore]
    refine ⟨hset.sound,hset.holds.trans ?_,hset.state,hset.parameters⟩
    rw [view_saved, length_read]
    exact Eq.refl _

theorem entries_store (history : ℕ → Buffer) (count : ℕ) (row : Buffer) :
    read (fun i => cString (store history count row i)) (count + 1) = read (fun i => cString (history i)) count ++ [cString row] := by
  have hfront : read (fun i => cString (store history count row i)) count = read (fun i => cString (history i)) count := by
    refine read_congr fun i hi => ?_
    rw [store, if_neg (Nat.ne_of_lt hi)]
  rw [read_add, hfront, read_one, Nat.add_zero, store_self]

/-- A full history makes room: the rows move up. -/
theorem entries_shift (h : Sound P e) (hfull : e.historyCount = historyMax) :
    read (fun i => cString (shiftHistory e.history i)) (e.historyCount - 1) = (entries e).rtake (historyMax - 1) := by
  have hdrop : (entries e).rtake (historyMax - 1) = (entries e).drop 1 := by
    rw [List.rtake, entries, length_read, hfull]
    exact Eq.refl _
  have hone : 1 ≤ e.historyCount := by
    rw [hfull]
    decide
  rw [hdrop, entries, drop_read _ _ hone, shiftHistory, foldl_shift]
  refine read_congr fun i hi => ?_
  have hrow : i < historyMax - 1 := by
    rw [← hfull]
    exact hi
  dsimp only
  rw [if_pos hrow, Nat.add_comm]

/-- The rows that stay when a line is added, and how many they are. -/
theorem history_room (h : Sound P e) :
    ∃ (history : ℕ → Buffer) (count : ℕ),
      (if e.historyCount = historyMax then shiftHistory e.history else e.history) = history ∧
      (if e.historyCount = historyMax then e.historyCount - 1 else e.historyCount) = count ∧
      read (fun i => cString (history i)) count = (entries e).rtake (historyMax - 1) ∧
      (∀ i < count, Stored P (history i) (cString (history i)).length) ∧ count + 1 ≤ historyMax ∧
      e.historyCount ≤ count + 1 := by
  by_cases hfull : e.historyCount = historyMax
  · rw [if_pos hfull, if_pos hfull]
    refine ⟨_,_,rfl,rfl,entries_shift h hfull,?_,?_,by omega⟩
    · intro i hi
      have hrow : shiftHistory e.history i = e.history (i + 1) := by
        rw [shiftHistory, foldl_shift]
        exact if_pos (hfull ▸ hi)
      rw [hrow]
      exact h.history (i + 1) (Nat.add_lt_of_lt_sub hi)
    · rw [hfull]
      exact Nat.le_refl _
  · have hroom : e.historyCount + 1 ≤ historyMax := Nat.lt_of_le_of_ne h.count hfull
    have hall : (entries e).rtake (historyMax - 1) = entries e := by
      have hzero : e.historyCount - (historyMax - 1) = 0 := by omega
      rw [List.rtake, entries, length_read, hzero]
      exact List.drop_zero
    rw [if_neg hfull, if_neg hfull, hall]
    exact ⟨_,_,rfl,rfl,rfl,h.history,hroom,Nat.le_succ _⟩

theorem addHistory_refined (hP : ¬P 0) (h : Sound P e) :
    Refined P e (addHistory e) { view e with history := Reference.remember (view e).text (view e).history } := by
  have hline : cString e.line = read e.line e.lineLength := h.line.cString hP
  have hempty : read e.line e.lineLength = [] ↔ e.lineLength = 0 := by
    rw [← List.length_eq_zero_iff, length_read]
  have hlast : (entries e).getLast? = some (read e.line e.lineLength) ↔
      e.historyCount ≠ 0 ∧ cString (e.history (e.historyCount - 1)) = cString e.line := by
    rw [hline]
    cases hcount : e.historyCount with
    | zero =>
      rw [entries_nil.mpr hcount]
      exact iff_of_false nofun fun hboth => hboth.1 rfl
    | succ n =>
      rw [entries, hcount, read_add, read_one, List.getLast?_concat, Option.some.injEq]
      exact (and_iff_right (Nat.succ_ne_zero n)).symm
  unfold addHistory Reference.remember
  rw [view_text, view_history]
  by_cases hskip : e.lineLength = 0 ∨ (e.historyCount ≠ 0 ∧ cString (e.history (e.historyCount - 1)) = cString e.line)
  · rw [if_pos hskip, if_pos (hskip.imp hempty.mpr hlast.mpr)]
    exact Refined.unchanged h
  rw [if_neg hskip, if_neg (mt (Or.imp hempty.mp hlast.mp) hskip)]
  obtain ⟨history,count,hhistory,hcount,hrows,hstored,hmax,hmore⟩ := history_room h
  have hrow : Stored P (copy (history count) 0 e.line (e.lineLength + 1)) e.lineLength := h.line.copied _
  dsimp only
  rw [hhistory, hcount]
  refine ⟨⟨h.cursor,h.line,h.cut,h.scratch,hmax,?_,?_⟩,?_,rfl,rfl⟩
  · intro i hi
    by_cases hnew : i = count
    · subst hnew
      dsimp only
      rw [store_self]
      exact hrow.of_cString hP
    · have hold : store history count (copy (history count) 0 e.line (e.lineLength + 1)) i = history i := if_neg hnew
      dsimp only
      rw [hold]
      exact hstored i (Nat.lt_of_le_of_ne (Nat.le_of_lt_succ hi) hnew)
  · refine h.valid.imp_right ?_
    rintro ⟨hle,hlt⟩
    have hnew : e.historyPosition < ((count + 1 : ℕ) : ℤ) := by omega
    exact ⟨hle,hnew⟩
  · have hentries := entries_store history count (copy (history count) 0 e.line (e.lineLength + 1))
    rw [hrows, hrow.cString hP, read_copied] at hentries
    unfold view
    dsimp only
    rw [entries]
    dsimp only
    rw [hentries]
    exact Eq.refl _

theorem reset_sound (h : Sound P e) : Sound P (reset e) ∧ view (reset e) = (view e).reset := by
  refine ⟨⟨Nat.le_refl 0,stored_zero _ rfl,h.cut,h.scratch,h.count,h.history,Or.inl rfl⟩,rfl⟩

/-! ## Bytes -/

/-- What is asked of the callbacks: the words offered are of characters that may be in a line. -/
structure Answered (P : UInt8 → Prop) (operation : Operation) (answers : Answers) : Prop where
  offers : Offers P answers.completion
  space : P 32
  inserted : ∀ c, operation = .insert c → P c

/-- Where the line is given up, no escape sequence is being read. -/
def Ends (operation : Operation) : Prop := operation = .submit ∨ operation = .interrupt

/-- Every operation keeps the editor in order, and does what the reference does. -/
theorem perform_refined (hP : ¬P 0) (h : Sound P e) (config : Config) {operation : Operation} {answers : Answers}
    (hanswers : Answered P operation answers) (hends : Ends operation → e.escapeState = .none ∧ e.escapeParameters = []) :
    Refined P e (perform config answers operation e).editor ((view e).perform answers operation) := by
  cases operation with
  | nothing => exact Refined.unchanged h
  | beep => exact Refined.unchanged h
  | redraw => exact Refined.unchanged h
  | historyUp => exact historyUp_refined h config
  | historyDown => exact historyDown_refined h config
  | home => exact moveTo_refined h config (Nat.zero_le _)
  | toEnd =>
    rw [Reference.perform, view_text, length_read]
    exact moveTo_refined h config (Nat.le_refl e.lineLength)
  | delete => exact delete_refined h config
  | backspace => exact backspace_refined h config
  | deletePreviousWord => exact deletePreviousWord_refined h config
  | deleteNextWord => exact deleteNextWord_refined h config
  | cutToEnd =>
    rw [Reference.perform, view_text, length_read]
    exact cutRange_refined h config e.cursor e.lineLength
  | cutToStart => exact cutRange_refined h config 0 e.cursor
  | paste => exact pasteCutBuffer_refined h config
  | complete => exact complete_refined h config hanswers.space hanswers.offers
  | submit =>
    have hadd := addHistory_refined hP h
    obtain ⟨hsound,hview⟩ := reset_sound hadd.sound
    obtain ⟨hstate,hparameters⟩ := hends (Or.inl rfl)
    refine ⟨hsound,hview.trans ?_,hstate.symm,hparameters.symm⟩
    rw [hadd.holds]
    exact Eq.refl _
  | interrupt =>
    obtain ⟨hsound,hview⟩ := reset_sound h
    obtain ⟨hstate,hparameters⟩ := hends (Or.inr rfl)
    exact ⟨hsound,hview,hstate.symm,hparameters.symm⟩
  | deleteOrEnd =>
    have hdelete := delete_refined h config
    rw [perform]
    split
    · rename_i hend
      have hcursor : (view e).text.length ≤ (view e).cursor := by
        rw [view_text, length_read, hend.1]
        exact Nat.zero_le _
      have hview : (view e).perform answers .deleteOrEnd = view e := if_pos hcursor
      rw [hview]
      exact Refined.unchanged h
    · exact hdelete
  | moveLeft word => exact moveLeft_refined h word
  | moveRight word => exact moveRight_refined h word
  | insert c => exact insert_refined h (hanswers.inserted c rfl)

end

/-- What an escape sequence can ask for: moving, deleting, and lines of the history. -/
def Operation.Moves : Operation → Prop
  | .submit | .interrupt | .insert _ => False
  | _ => True

theorem csiFinal_moves (parameters : Text) (c : UInt8) : (csiFinal parameters c).Moves := by
  unfold csiFinal
  dsimp only
  split_ifs <;> exact True.intro

theorem startedByte_moves (c : UInt8) : (startedByte c).2.Moves := by
  unfold startedByte
  split_ifs <;> exact True.intro

theorem ss3Byte_moves (c : UInt8) : (ss3Byte c).Moves := by
  unfold ss3Byte
  split_ifs <;> exact True.intro

theorem csiByte_moves (parameters : Text) (c : UInt8) : (csiByte parameters c).2.2.Moves := by
  unfold csiByte
  split
  · exact True.intro
  · exact csiFinal_moves parameters c

/-- A byte moves, or gives the line up with no escape sequence begun, or is put in if it can be printed. -/
def Calls (c : UInt8) (called : EscapeState × Operation) : Prop :=
  called.2.Moves ∨ (called.1 = .none ∧ Ends called.2) ∨ (isPrint c = true ∧ called.2 = .insert c)

theorem Calls.moves {c : UInt8} {called : EscapeState × Operation} (h : called.2.Moves) : Calls c called := Or.inl h

theorem Calls.ite {c : UInt8} {p : Prop} [Decidable p] {called called' : EscapeState × Operation} (h : Calls c called)
    (h' : Calls c called') : Calls c (if p then called else called') := by
  split
  · exact h
  · exact h'

theorem plainByte_calls (c : UInt8) : Calls c (plainByte c) := by
  have hends {operation : Operation} (h : Ends operation) : Calls c (.none,operation) := Or.inr (Or.inl ⟨rfl,h⟩)
  have hmoves {called called' : EscapeState × Operation} {p : Prop} [Decidable p] (h : called.2.Moves) (h' : Calls c called') :
      Calls c (if p then called else called') := (Calls.moves h).ite h'
  unfold plainByte
  refine hmoves True.intro (Calls.ite (hends (Or.inl rfl)) ?_)
  -- up to the byte that interrupts
  iterate 11 refine hmoves True.intro ?_
  refine Calls.ite (hends (Or.inr rfl)) ?_
  iterate 3 refine hmoves True.intro ?_
  split
  · rename_i hprint
    exact Or.inr (Or.inr ⟨hprint,rfl⟩)
  · exact Calls.moves True.intro

/-- A line is given up by a byte outside of an escape sequence only. -/
theorem decode_ends {state : EscapeState} {parameters : Text} {c : UInt8} (h : Ends (decode state parameters c).2.2) :
    (decode state parameters c).1 = .none ∧ (decode state parameters c).2.1 = [] := by
  have hmoves {operation : Operation} (hmoves : operation.Moves) : ¬Ends operation := by
    rintro (rfl | rfl)
    · exact hmoves
    · exact hmoves
  cases state with
  | none =>
    refine ⟨?_,rfl⟩
    rcases plainByte_calls c with hplain | ⟨hstate,-⟩ | ⟨-,hinsert⟩
    · exact absurd h (hmoves hplain)
    · exact hstate
    · rw [decode, hinsert] at h
      rcases h with h | h
      · cases h
      · cases h
  | started => exact absurd h (hmoves (startedByte_moves c))
  | csi => exact absurd h (hmoves (csiByte_moves parameters c))
  | ss3 => exact absurd h (hmoves (ss3Byte_moves c))

/-- Only a character that can be printed is put in the line. -/
theorem decode_insert {state : EscapeState} {parameters : Text} {c x : UInt8}
    (h : (decode state parameters c).2.2 = .insert x) : isPrint x = true := by
  have hmoves {operation : Operation} (hmoves : operation.Moves) : operation ≠ .insert x := by
    rintro rfl
    exact hmoves
  cases state with
  | none =>
    rcases plainByte_calls c with hplain | ⟨-,hends⟩ | ⟨hprint,hinsert⟩
    · exact absurd h (hmoves hplain)
    · rcases hends with hends | hends
      · cases hends.symm.trans h
      · cases hends.symm.trans h
    · cases hinsert.symm.trans h
      exact hprint
  | started => exact absurd h (hmoves (startedByte_moves c))
  | csi => exact absurd h (hmoves (csiByte_moves parameters c))
  | ss3 => exact absurd h (hmoves (ss3Byte_moves c))

/-! ## Runs -/

/-- A byte, with what the callbacks return while it is handled. -/
abbrev Event := UInt8 × Answers

def run (config : Config) (e : Editor) (events : List Event) : Editor :=
  events.foldl (fun e event => (handleByte config event.2 e event.1).editor) e

/-- The lines that were submitted in a run. -/
def submissions (config : Config) : Editor → List Event → List Text
  | _, [] => []
  | e, event :: events =>
    (handleByte config event.2 e event.1).submitted.toList ++ submissions config (handleByte config event.2 e event.1).editor events

/-- The reference with the state of the escape sequence. -/
def whole (e : Editor) : EscapeState × Text × Reference := (e.escapeState,e.escapeParameters,view e)

section
variable {P : UInt8 → Prop} (config : Config) {e : Editor}

theorem Sound.keys (h : Sound P e) (state : EscapeState) (parameters : Text) :
    Sound P { e with escapeState := state, escapeParameters := parameters } :=
  ⟨h.cursor,h.line,h.cut,h.scratch,h.count,h.history,h.valid⟩

/-- A byte is handled as the reference does it. -/
theorem handleByte_sound (hP : ¬P 0) (hprint : ∀ c, isPrint c = true → P c) (h : Sound P e) {answers : Answers}
    (hoffers : Offers P answers.completion) (c : UInt8) :
    Sound P (handleByte config answers e c).editor ∧
      whole (handleByte config answers e c).editor = Reference.handleByte answers (whole e) c := by
  have hkeys := h.keys (decode e.escapeState e.escapeParameters c).1 (decode e.escapeState e.escapeParameters c).2.1
  have hanswered : Answered P (decode e.escapeState e.escapeParameters c).2.2 answers :=
    ⟨hoffers,hprint 32 rfl,fun x hx => hprint x (decode_insert hx)⟩
  have hperform := perform_refined hP hkeys config hanswered decode_ends
  refine ⟨hperform.sound,?_⟩
  unfold whole Reference.handleByte
  refine Prod.ext hperform.state (Prod.ext hperform.parameters ?_)
  exact hperform.holds

theorem run_sound (hP : ¬P 0) (hprint : ∀ c, isPrint c = true → P c) (h : Sound P e) {events : List Event}
    (hoffers : ∀ event ∈ events, Offers P event.2.completion) :
    Sound P (run config e events) ∧
      whole (run config e events) = events.foldl (fun s event => Reference.handleByte event.2 s event.1) (whole e) := by
  induction events generalizing e with
  | nil => exact ⟨h,rfl⟩
  | cons event events ih =>
    obtain ⟨hevent,hevents⟩ := List.forall_mem_cons.mp hoffers
    obtain ⟨hsound,hwhole⟩ := handleByte_sound config hP hprint h hevent event.1
    have hrun := ih hsound hevents
    rw [hwhole] at hrun
    exact hrun

theorem perform_submitted (answers : Answers) {operation : Operation} (h : operation ≠ .submit) (e : Editor) :
    (perform config answers operation e).submitted = none := by
  cases operation with
  | submit => exact absurd rfl h
  | deleteOrEnd =>
    rw [perform]
    split
    · exact Eq.refl _
    · exact Eq.refl _
  | _ => exact Eq.refl _

/-- What is kept of the lines submitted so far, when some more have been. -/
theorem entries_run (hP : ¬P 0) (hprint : ∀ c, isPrint c = true → P c) (h : Sound P e) {events : List Event}
    (hoffers : ∀ event ∈ events, Offers P event.2.completion) {lines : List Text}
    (hlines : entries e = (Reference.collapse lines).rtake historyMax) :
    entries (run config e events) = (Reference.collapse (lines ++ submissions config e events)).rtake historyMax := by
  induction events generalizing e lines with
  | nil =>
    rw [submissions, List.append_nil]
    exact hlines
  | cons event events ih =>
    obtain ⟨hevent,hevents⟩ := List.forall_mem_cons.mp hoffers
    obtain ⟨hsound,hwhole⟩ := handleByte_sound config hP hprint h hevent event.1
    rw [submissions, ← List.append_assoc]
    refine ih hsound hevents ?_
    -- what the byte does to the history
    have hhistory : entries (handleByte config event.2 e event.1).editor =
        ((view e).perform event.2 (decode e.escapeState e.escapeParameters event.1).2.2).history :=
      congrArg (fun s : EscapeState × Text × Reference => s.2.2.history) hwhole
    rw [hhistory]
    by_cases hsubmit : (decode e.escapeState e.escapeParameters event.1).2.2 = .submit
    · have hadd := addHistory_refined hP
        (h.keys (decode e.escapeState e.escapeParameters event.1).1 (decode e.escapeState e.escapeParameters event.1).2.1)
      have hsubmitted : (handleByte config event.2 e event.1).submitted = some (view e).text := by
        unfold handleByte
        dsimp only
        rw [hsubmit]
        exact congrArg (fun r : Reference => some r.text) hadd.holds
      rw [hsubmit, hsubmitted, Option.toList_some, ← Reference.remember_collapse, ← hlines]
      exact Eq.refl _
    · have hsubmitted : (handleByte config event.2 e event.1).submitted = none := perform_submitted config event.2 hsubmit _
      rw [Reference.perform_history _ hsubmit, hsubmitted, Option.toList_none, List.append_nil]
      exact hlines

theorem iterate_refined {f : Editor → Editor} {g : Reference → Reference} (hf : ∀ e, Sound P e → Sound P (f e) ∧ view (f e) = g (view e))
    (h : Sound P e) (n : ℕ) : Sound P (f^[n] e) ∧ view (f^[n] e) = g^[n] (view e) := by
  induction n with
  | zero => exact ⟨h,rfl⟩
  | succ n ih =>
    obtain ⟨hsound,hview⟩ := hf _ ih.1
    rw [Function.iterate_succ_apply', Function.iterate_succ_apply', ← ih.2]
    exact ⟨hsound,hview⟩

/-- Some lines up the history, and as many down again. -/
theorem history_walk (h : Sound P e) (hposition : e.historyPosition = -1) {n : ℕ} (hn : n < e.historyCount) :
    (view ((fun e => (historyUp config e).1)^[n + 1] e)).text = (entries e).getD (e.historyCount - (n + 1)) [] ∧
      (view ((fun e => (historyDown config e).1)^[n + 1] ((fun e => (historyUp config e).1)^[n + 1] e))).text = (view e).text := by
  have hlength : (view e).history.length = e.historyCount := by
    rw [view_history, entries, length_read]
  have hnone : (view e).position = none := by
    rw [view_position, position, hposition]
    exact if_pos (by decide)
  have hlt : n < (view e).history.length := by
    rw [hlength]
    exact hn
  obtain ⟨hsound,hup⟩ := iterate_refined (f := fun e => (historyUp config e).1) (g := Reference.up)
    (fun e he => ⟨(historyUp_refined he config).sound,(historyUp_refined he config).holds⟩) h (n + 1)
  obtain ⟨-,hdown⟩ := iterate_refined (f := fun e => (historyDown config e).1) (g := Reference.down)
    (fun e he => ⟨(historyDown_refined he config).sound,(historyDown_refined he config).holds⟩) hsound (n + 1)
  rw [hdown, hup, Reference.down_up hnone hlt, Reference.up_iterate hnone hlt, hlength]
  exact ⟨rfl,rfl⟩

/-- What was cut is back where it is pasted again. -/
theorem cut_paste (h : Sound P e) {start stop : ℕ} (hlt : start < stop) (hstop : stop ≤ e.lineLength) :
    (view (pasteCutBuffer config (cutRange config start stop e).1).1).text = (view e).text := by
  have hcut := cutRange_refined h config start stop
  have hpaste := pasteCutBuffer_refined hcut.sound config
  have hfits : stop ≤ (view e).text.length := by
    rw [view_text, length_read]
    exact hstop
  have hroom : (view e).text.length < lineMax := by
    rw [view_text, length_read]
    exact h.line.short
  rw [hpaste.holds, hcut.holds]
  exact (Reference.paste_cut hlt hfits hroom).1

end

/-- For every run of bytes, and whatever the callbacks return: the cursor is in the line, which ends with a NUL in its buffer;
the position in the history is that of an entry or none; the buffers hold what the reference holds after the same bytes, and
the history the last lines submitted; walking up the history and down again brings the edited line back, and so does pasting what was cut. -/
theorem editor_state_law (config : Config) (events : List Event) :
    (run config init events).cursor ≤ (run config init events).lineLength ∧
    (run config init events).lineLength < lineMax ∧
    (run config init events).line (run config init events).lineLength = 0 ∧
    ((run config init events).historyPosition = -1 ∨
      (0 ≤ (run config init events).historyPosition ∧
        (run config init events).historyPosition < (run config init events).historyCount)) ∧
    whole (run config init events) =
      events.foldl (fun s event => Reference.handleByte event.2 s event.1) (.none,[],Reference.empty) ∧
    entries (run config init events) = (Reference.collapse (submissions config init events)).rtake historyMax ∧
    (∀ n, (run config init events).historyPosition = -1 → n < (run config init events).historyCount →
      (view ((fun e => (historyUp config e).1)^[n + 1] (run config init events))).text =
        (entries (run config init events)).getD ((run config init events).historyCount - (n + 1)) [] ∧
      (view ((fun e => (historyDown config e).1)^[n + 1]
        ((fun e => (historyUp config e).1)^[n + 1] (run config init events)))).text = (view (run config init events)).text) ∧
    ∀ start stop, start < stop → stop ≤ (run config init events).lineLength →
      (view (pasteCutBuffer config (cutRange config start stop (run config init events)).1).1).text =
        (view (run config init events)).text := by
  have hP : ¬(fun c : UInt8 => c ≠ 0) 0 := fun h => h rfl
  have hprint : ∀ c, isPrint c = true → (fun c : UInt8 => c ≠ 0) c := by
    rintro c hc rfl
    cases hc
  have hoffers : ∀ event ∈ events, Offers (fun c : UInt8 => c ≠ 0) event.2.completion := by
    rintro event - completion - i x hx rfl
    exact (completion.candidates i).terminated hx
  have hinit : Sound (fun c : UInt8 => c ≠ 0) init := init_sound
  obtain ⟨hsound,hwhole⟩ := run_sound (P := fun c => c ≠ 0) config hP hprint hinit hoffers
  have hnothing : entries init = (Reference.collapse []).rtake historyMax := rfl
  have hentries := entries_run (P := fun c => c ≠ 0) config hP hprint hinit hoffers hnothing
  rw [List.nil_append] at hentries
  have hstart : whole init = (EscapeState.none,[],Reference.empty) := rfl
  rw [hstart] at hwhole
  refine ⟨hsound.cursor,hsound.line.short,hsound.line.terminated,hsound.valid,hwhole,hentries,?_,?_⟩
  · exact fun n hposition hn => history_walk config hsound hposition hn
  · exact fun start stop hlt hstop => cut_paste config hsound hlt hstop

end Bvstk.Cli
