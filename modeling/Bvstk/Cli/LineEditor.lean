import Bvstk.Library.TextBuffer
import Mathlib.Data.Int.Notation

/-! # The line editor of the consoles

`bvstk_line_editor.c`: four buffers, the indices into them, and the state of the escape sequence
that is being read. Every function returns the editor and what it writes to the terminal.
-/
namespace Bvstk.Cli
open TextBuffer

abbrev Text := List UInt8
abbrev Buffer := ℕ → UInt8

def lineMax : ℕ := 512
def historyMax : ℕ := 16
def completionMaxMatches : ℕ := 16
def completionWordMax : ℕ := 256

/-- `sizeof(editor->escape_parameters)`. -/
def escapeParametersMax : ℕ := 16

def isSpace (c : UInt8) : Bool := decide (c = 32 ∨ (9 ≤ c ∧ c ≤ 13))
def isPrint (c : UInt8) : Bool := decide (32 ≤ c ∧ c ≤ 126)
def toLower (c : UInt8) : UInt8 := if 65 ≤ c ∧ c ≤ 90 then c + 32 else c

inductive EscapeState where
  | none | started | csi | ss3
deriving DecidableEq

structure Editor where
  line : Buffer
  lineLength : ℕ
  cursor : ℕ
  history : ℕ → Buffer
  historyCount : ℕ
  historyPosition : ℤ
  historyScratch : Buffer
  historyScratchLength : ℕ
  cutBuffer : Buffer
  cutLength : ℕ
  escapeState : EscapeState
  escapeParameters : List UInt8

/-- What a console gives to its editor: the text of its prompt, and whether an end of input in an empty line is one. -/
structure Config where
  prompt : Text
  eofOnEmpty : Bool

def beep : Text := [7]
def cursorLeft : Text := [27,91,68]
def cursorRight : Text := [27,91,67]
def newLine : Text := [13,10]

def times (n : ℕ) (text : Text) : Text := (List.replicate n text).flatten

/-- `strcmp(...) == 0` and `strlen` see a buffer up to the NUL. -/
def cString (b : Buffer) : Text := upTo 0 b lineMax

/-- `bvstk_line_editor_init`. -/
def init : Editor where
  line _ := 0
  lineLength := 0
  cursor := 0
  history _ _ := 0
  historyCount := 0
  historyPosition := -1
  historyScratch _ := 0
  historyScratchLength := 0
  cutBuffer _ := 0
  cutLength := 0
  escapeState := .none
  escapeParameters := []

/-- `bvstk_line_editor_reset`. -/
def reset (e : Editor) : Editor :=
  { e with lineLength := 0, cursor := 0, line := store e.line 0 0, historyPosition := -1, escapeState := .none,
           escapeParameters := [] }

/-- `bvstk_line_editor_set_state`; nothing where it fails. -/
def setState (e : Editor) (line : Buffer) (length cursor : ℕ) : Option Editor :=
  if lineMax ≤ length ∨ length < cursor then none
  else some { e with line := store (copy e.line 0 line length) length 0, lineLength := length, cursor := cursor }

/-- `bvstk_line_editor_set_line`. -/
def setLine (e : Editor) (line : Buffer) (length : ℕ) : Option Editor := setState e line length length

def markEdited (e : Editor) : Editor := { e with historyPosition := -1 }

/-- The rows of a full history move up by one. -/
def shiftHistory (history : ℕ → Buffer) : ℕ → Buffer :=
  (List.range (historyMax - 1)).foldl (fun rows i => store rows i (rows (i + 1))) history

/-- `editor_add_history`. -/
def addHistory (e : Editor) : Editor :=
  if e.lineLength = 0 ∨ (e.historyCount ≠ 0 ∧ cString (e.history (e.historyCount - 1)) = cString e.line) then e
  else
    let history := if e.historyCount = historyMax then shiftHistory e.history else e.history
    let count := if e.historyCount = historyMax then e.historyCount - 1 else e.historyCount
    { e with history := store history count (copy (history count) 0 e.line (e.lineLength + 1)), historyCount := count + 1 }

/-- `bvstk_line_editor_redraw`. -/
def redraw (config : Config) (e : Editor) : Text :=
  [13,27,91,50,75] ++ config.prompt ++ read e.line e.lineLength ++ times (e.lineLength - e.cursor) cursorLeft

/-- `editor_move_left`. -/
def moveLeft (word : Bool) (e : Editor) : Editor × Text :=
  if e.cursor = 0 then (e,beep)
  else
    let cursor :=
      if word = true then skipLeft (fun c => !isSpace c) e.line (skipLeft isSpace e.line e.cursor) else e.cursor - 1
    ({ e with cursor := cursor },times (e.cursor - cursor) cursorLeft)

/-- `editor_move_right`. -/
def moveRight (word : Bool) (e : Editor) : Editor × Text :=
  if e.lineLength ≤ e.cursor then (e,beep)
  else
    let cursor :=
      if word = true then
        let stop := skipRight (fun c => !isSpace c) e.line (e.lineLength - e.cursor) e.cursor
        skipRight isSpace e.line (e.lineLength - stop) stop
      else e.cursor + 1
    ({ e with cursor := cursor },times (cursor - e.cursor) cursorRight)

/-- The cursor is put somewhere, and the line written again. -/
def moveTo (config : Config) (cursor : ℕ) (e : Editor) : Editor × Text :=
  ({ e with cursor := cursor },redraw config { e with cursor := cursor })

/-- The row of the history at the position becomes the line. -/
def recallLine (config : Config) (e : Editor) : Editor × Text :=
  let row := e.history e.historyPosition.toNat
  let e := (setLine e row (cString row).length).getD e
  (e,redraw config e)

/-- `editor_history_up`. -/
def historyUp (config : Config) (e : Editor) : Editor × Text :=
  if e.historyCount = 0 then (e,beep)
  else if e.historyPosition < 0 then
    recallLine config { e with
      historyScratch := copy e.historyScratch 0 e.line (e.lineLength + 1)
      historyScratchLength := e.lineLength
      historyPosition := (e.historyCount : ℤ) - 1 }
  else if 0 < e.historyPosition then recallLine config { e with historyPosition := e.historyPosition - 1 }
  else (e,beep)

/-- `editor_history_down`. -/
def historyDown (config : Config) (e : Editor) : Editor × Text :=
  if e.historyPosition < 0 then (e,beep)
  else if (e.historyPosition + 1).toNat < e.historyCount then
    recallLine config { e with historyPosition := e.historyPosition + 1 }
  else
    let e := { e with historyPosition := -1 }
    let e := (setLine e e.historyScratch e.historyScratchLength).getD e
    (e,redraw config e)

/-- `editor_insert`. -/
def insert (c : UInt8) (e : Editor) : Editor × Text :=
  if lineMax ≤ e.lineLength + 1 then (e,beep)
  else
    let tail := e.lineLength - e.cursor
    let moved := copy e.line (e.cursor + 1) (fun i => e.line (e.cursor + i)) tail
    let line := store (store moved e.cursor c) (e.lineLength + 1) 0
    let e := markEdited { e with line := line, lineLength := e.lineLength + 1, cursor := e.cursor + 1 }
    (e,[c] ++ read (fun i => line (e.cursor + i)) tail ++ times tail cursorLeft)

/-- The character at the cursor is taken out. -/
def takeOut (config : Config) (e : Editor) : Editor × Text :=
  let tail := e.lineLength - e.cursor - 1
  let line := store (copy e.line e.cursor (fun i => e.line (e.cursor + 1 + i)) tail) (e.lineLength - 1) 0
  let e := markEdited { e with line := line, lineLength := e.lineLength - 1 }
  (e,redraw config e)

/-- `editor_backspace`. -/
def backspace (config : Config) (e : Editor) : Editor × Text :=
  if e.cursor = 0 then (e,beep) else takeOut config { e with cursor := e.cursor - 1 }

/-- `editor_delete`. -/
def delete (config : Config) (e : Editor) : Editor × Text :=
  if e.lineLength ≤ e.cursor then (e,beep) else takeOut config e

/-- `editor_cut_range`. -/
def cutRange (config : Config) (start stop : ℕ) (e : Editor) : Editor × Text :=
  if stop ≤ start ∨ e.lineLength < stop then (e,[])
  else
    let cutLength := if lineMax ≤ stop - start then lineMax - 1 else stop - start
    let cutBuffer := store (copy e.cutBuffer 0 (fun i => e.line (start + i)) cutLength) cutLength 0
    let line := copy e.line start (fun i => e.line (stop + i)) (e.lineLength - stop)
    let length := e.lineLength - (stop - start)
    let e := markEdited { e with cutLength := cutLength, cutBuffer := cutBuffer, line := store line length 0,
                                 lineLength := length, cursor := start }
    (e,redraw config e)

/-- `editor_delete_previous_word`. -/
def deletePreviousWord (config : Config) (e : Editor) : Editor × Text :=
  if e.cursor = 0 then (e,[])
  else cutRange config (skipLeft (fun c => !isSpace c) e.line (skipLeft isSpace e.line e.cursor)) e.cursor e

/-- `editor_delete_next_word`. -/
def deleteNextWord (config : Config) (e : Editor) : Editor × Text :=
  if e.lineLength ≤ e.cursor then (e,[])
  else
    let stop := skipRight isSpace e.line (e.lineLength - e.cursor) e.cursor
    cutRange config e.cursor (skipRight (fun c => !isSpace c) e.line (e.lineLength - stop) stop) e

/-- `editor_paste_cut_buffer`. -/
def pasteCutBuffer (config : Config) (e : Editor) : Editor × Text :=
  if e.cutLength = 0 ∨ lineMax ≤ e.lineLength + e.cutLength then (e,[])
  else
    let tail := e.lineLength - e.cursor
    let moved := copy e.line (e.cursor + e.cutLength) (fun i => e.line (e.cursor + i)) tail
    let line := copy moved e.cursor e.cutBuffer e.cutLength
    let length := e.lineLength + e.cutLength
    let e := markEdited { e with line := store line length 0, lineLength := length, cursor := e.cursor + e.cutLength }
    (e,redraw config e)

/-! ## Completion -/

/-- A word that is offered: a string in its buffer. -/
structure Candidate where
  text : Text
  short : text.length < completionWordMax
  terminated : 0 ∉ text

/-- `bvstk_line_editor_completion_t`. -/
structure Completion where
  tokenStart : ℕ
  tokenPrefixLength : ℕ
  matchCount : ℕ
  candidates : Fin completionMaxMatches → Candidate

/-- Whether a space follows a replacement: not behind a directory. -/
def spaceFollows (replacement : Text) (appendSpace : Bool) : Bool :=
  appendSpace && decide (replacement ≠ [] ∧ replacement.getLast? ≠ some 47)

/-- `bvstk_line_editor_replace`. -/
def replace (config : Config) (tokenStart prefixLength : ℕ) (replacement : Text) (appendSpace : Bool) (e : Editor) :
    Editor × Text :=
  if e.cursor < tokenStart ∨ prefixLength ≠ e.cursor - tokenStart then (e,[])
  else
    let tail := e.lineLength - e.cursor
    let newLength := tokenStart + replacement.length + tail
    if lineMax ≤ (if spaceFollows replacement appendSpace = true then newLength + 1 else newLength) then (e,beep)
    else
      let moved := copy e.line (tokenStart + replacement.length) (fun i => e.line (e.cursor + i)) tail
      let line := copy moved tokenStart (fun i => replacement.getD i 0) replacement.length
      let cursor := tokenStart + replacement.length
      let e :=
        if spaceFollows replacement appendSpace = true then
          let spaced := store (copy line (cursor + 1) (fun i => line (cursor + i)) tail) cursor 32
          { e with line := store spaced (newLength + 1) 0, lineLength := newLength + 1, cursor := cursor + 1 }
        else { e with line := store line newLength 0, lineLength := newLength, cursor := cursor }
      let e := markEdited e
      (e,redraw config e)

/-- How many of the first characters of two words are the same but for their case. -/
def sameLength : (length : ℕ) → Text → Text → ℕ
  | length + 1, a :: as, b :: bs => if toLower a = toLower b then sameLength length as bs + 1 else 0
  | _, _, _ => 0

/-- `common_prefix_length`. -/
def commonPrefixLength (words : List Text) : ℕ :=
  match words with
  | [] => 0
  | first :: others => others.foldl (fun length word => sameLength length first word) first.length

/-- The candidates that count. -/
def Completion.words (c : Completion) : List Text := ((List.ofFn c.candidates).take c.matchCount).map Candidate.text

/-- `editor_complete`; the callback gives no completion where it is missing or returns zero. -/
def complete (config : Config) (answer : Option Completion) (e : Editor) : Editor × Text :=
  match answer with
  | none => (e,beep)
  | some c =>
    if c.matchCount = 0 ∨ completionMaxMatches < c.matchCount then (e,beep)
    else if e.cursor < c.tokenStart ∨ c.tokenPrefixLength ≠ e.cursor - c.tokenStart then (e,beep)
    else
      let first := (c.candidates ⟨0,by decide⟩).text
      if c.matchCount = 1 then replace config c.tokenStart c.tokenPrefixLength first true e
      else
        let prefixLength := commonPrefixLength c.words
        let (e,output) :=
          if c.tokenPrefixLength < prefixLength then
            replace config c.tokenStart c.tokenPrefixLength (first.take prefixLength) false e
          else (e,[])
        let listing := c.words.flatMap (· ++ [32,32])
        (e,output ++ newLine ++ listing ++ newLine ++ redraw config e)

/-! ## Input -/

/-- The loop of `parse_parameter`. -/
def parseLoop (index : ℕ) : (parameterIndex value : ℕ) → (haveValue : Bool) → Text → ℤ
  | parameterIndex, value, haveValue, [] => if parameterIndex = index ∧ haveValue = true then value else -1
  | parameterIndex, value, haveValue, c :: parameters =>
    if c = 59 then
      if parameterIndex = index then (if haveValue = true then value else 0)
      else parseLoop index (parameterIndex + 1) 0 false parameters
    else if 48 ≤ c ∧ c ≤ 57 then
      parseLoop index parameterIndex (if value < 1000 then value * 10 + (c.toNat - 48) else value) true parameters
    else parseLoop index parameterIndex value haveValue parameters

/-- `parse_parameter`. -/
def parseParameter (parameters : Text) (index : ℕ) : ℤ := parseLoop index 0 0 false parameters

/-- The functions that a byte calls. -/
inductive Operation where
  | nothing | beep | redraw | historyUp | historyDown | home | toEnd | delete | backspace | deletePreviousWord
  | deleteNextWord | cutToEnd | cutToStart | paste | complete | submit | interrupt | deleteOrEnd
  | moveLeft (word : Bool) | moveRight (word : Bool) | insert (c : UInt8)

/-- `editor_handle_csi_final`. -/
def csiFinal (parameters : Text) (c : UInt8) : Operation :=
  let first := parseParameter parameters 0
  let modifier := parseParameter parameters 1
  let word := decide (modifier = 3 ∨ modifier = 5 ∨ first = 5)
  if c = 65 then .historyUp
  else if c = 66 then .historyDown
  else if c = 67 then .moveRight word
  else if c = 68 then .moveLeft word
  else if c = 72 then .home
  else if c = 70 then .toEnd
  else if c = 126 then
    if first = 1 ∨ first = 7 then .home
    else if first = 4 ∨ first = 8 then .toEnd
    else if first = 3 then .delete
    else .beep
  else .beep

/-- `editor_handle_escape_byte` behind the escape. -/
def startedByte (c : UInt8) : EscapeState × Operation :=
  if c = 91 then (.csi,.nothing)
  else if c = 79 then (.ss3,.nothing)
  else if c = 98 ∨ c = 66 then (.none,.moveLeft true)
  else if c = 102 ∨ c = 70 then (.none,.moveRight true)
  else if c = 100 ∨ c = 68 then (.none,.deleteNextWord)
  else if c = 127 ∨ c = 8 then (.none,.deletePreviousWord)
  else (.none,.beep)

/-- `editor_handle_escape_byte` in a control sequence: the parameters, until a byte ends it. -/
def csiByte (parameters : Text) (c : UInt8) : EscapeState × Text × Operation :=
  if (48 ≤ c ∧ c ≤ 57) ∨ c = 59 ∨ c = 63 then
    (.csi,if parameters.length + 1 < escapeParametersMax then parameters ++ [c] else parameters,.nothing)
  else (.none,[],csiFinal parameters c)

/-- `editor_handle_escape_byte` behind `ESC O`. -/
def ss3Byte (c : UInt8) : Operation :=
  if c = 65 then .historyUp
  else if c = 66 then .historyDown
  else if c = 67 then .moveRight false
  else if c = 68 then .moveLeft false
  else if c = 72 then .home
  else if c = 70 then .toEnd
  else .beep

/-- `bvstk_line_editor_handle_byte` outside of an escape sequence. -/
def plainByte (c : UInt8) : EscapeState × Operation :=
  if c = 27 then (.started,.nothing)
  else if c = 13 ∨ c = 10 then (.none,.submit)
  else if c = 1 then (.none,.home)
  else if c = 2 then (.none,.moveLeft false)
  else if c = 5 then (.none,.toEnd)
  else if c = 6 then (.none,.moveRight false)
  else if c = 16 then (.none,.historyUp)
  else if c = 14 then (.none,.historyDown)
  else if c = 11 then (.none,.cutToEnd)
  else if c = 12 then (.none,.redraw)
  else if c = 21 then (.none,.cutToStart)
  else if c = 23 then (.none,.deletePreviousWord)
  else if c = 25 then (.none,.paste)
  else if c = 3 then (.none,.interrupt)
  else if c = 4 then (.none,.deleteOrEnd)
  else if c = 8 ∨ c = 127 then (.none,.backspace)
  else if c = 9 then (.none,.complete)
  else if isPrint c = true then (.none,.insert c)
  else (.none,.nothing)

/-- What a byte makes of the escape sequence, and the function it calls. -/
def decode (state : EscapeState) (parameters : Text) (c : UInt8) : EscapeState × Text × Operation :=
  match state with
  | .none => ((plainByte c).1,[],(plainByte c).2)
  | .started => ((startedByte c).1,[],(startedByte c).2)
  | .csi => csiByte parameters c
  | .ss3 => (.none,[],ss3Byte c)

/-- What the callbacks return for a byte: a completion if there is one, and the result of `submit` with what it wrote. -/
structure Answers where
  completion : Option Completion
  submitResult : ℤ
  submitOutput : Text

def submitPrompt : ℤ := 0
def submitStop : ℤ := 2

structure Handled where
  editor : Editor
  output : Text
  submitted : Option Text
  ended : Bool

/-- `editor_submit`. -/
def submit (config : Config) (answers : Answers) (e : Editor) : Handled :=
  let e := addHistory e
  { editor := reset e
    output := newLine ++ answers.submitOutput ++ (if answers.submitResult = submitPrompt then config.prompt else [])
    submitted := some (read e.line e.lineLength)
    ended := decide (answers.submitResult = submitStop ∨ answers.submitResult < 0) }

/-- `^C`. -/
def interrupt (config : Config) (e : Editor) : Editor × Text := (reset e,[94,67] ++ newLine ++ config.prompt)

def goesOn (r : Editor × Text) : Handled := ⟨r.1,r.2,none,false⟩

def perform (config : Config) (answers : Answers) (operation : Operation) (e : Editor) : Handled :=
  match operation with
  | .nothing => goesOn (e,[])
  | .beep => goesOn (e,beep)
  | .redraw => goesOn (e,redraw config e)
  | .historyUp => goesOn (historyUp config e)
  | .historyDown => goesOn (historyDown config e)
  | .home => goesOn (moveTo config 0 e)
  | .toEnd => goesOn (moveTo config e.lineLength e)
  | .delete => goesOn (delete config e)
  | .backspace => goesOn (backspace config e)
  | .deletePreviousWord => goesOn (deletePreviousWord config e)
  | .deleteNextWord => goesOn (deleteNextWord config e)
  | .cutToEnd => goesOn (cutRange config e.cursor e.lineLength e)
  | .cutToStart => goesOn (cutRange config 0 e.cursor e)
  | .paste => goesOn (pasteCutBuffer config e)
  | .complete => goesOn (complete config answers.completion e)
  | .submit => submit config answers e
  | .interrupt => goesOn (interrupt config e)
  | .deleteOrEnd =>
    if e.lineLength = 0 ∧ config.eofOnEmpty = true then ⟨e,[],none,true⟩ else goesOn (delete config e)
  | .moveLeft word => goesOn (moveLeft word e)
  | .moveRight word => goesOn (moveRight word e)
  | .insert c => goesOn (insert c e)

/-- `bvstk_line_editor_handle_byte`. -/
def handleByte (config : Config) (answers : Answers) (e : Editor) (c : UInt8) : Handled :=
  let (state,parameters,operation) := decode e.escapeState e.escapeParameters c
  perform config answers operation { e with escapeState := state, escapeParameters := parameters }

end Bvstk.Cli
