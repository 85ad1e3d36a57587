import Bvstk.Cli.LineRefinement
import Bvstk.Library.Terminal

/-! # The row of the terminal

What the editor writes keeps the row in step with the line, whether it writes the row again or
only what has changed.
-/
namespace Bvstk.Cli
open TextBuffer Terminal

/-- The row with the prompt and the line, and the cursor where the editor has it. -/
def shown (config : Config) (e : Editor) : Screen :=
  ⟨config.prompt ++ read e.line e.lineLength,config.prompt.length + e.cursor,.ground⟩

/-- The screen follows what is done to the editor. -/
def Follows (config : Config) (e : Editor) (r : Editor × Text) : Prop := feed (shown config e) r.2 = shown config r.1

section
variable {config : Config} {e : Editor} (hprompt : ∀ c ∈ config.prompt, Printable c)

theorem Follows.unchanged (config : Config) (e : Editor) : Follows config e (e,[]) := Eq.refl _

theorem Follows.beep (config : Config) (e : Editor) : Follows config e (e,beep) := feed_bell rfl

include hprompt in
/-- The row written again shows the line, whatever was there. -/
theorem feed_redraw {s : Screen} (hs : s.pending = .ground) (h : Sound Printable e) : feed s (redraw config e) = shown config e := by
  have hfirst := feed_end config.prompt hprompt []
  have hline := feed_end (read e.line e.lineLength) h.line.all config.prompt
  rw [List.nil_append, List.length_nil] at hfirst
  unfold redraw times
  rw [feed_append, feed_append, feed_append, feed_erase hs, hfirst, hline]
  have hleft := feed_left (s := ⟨config.prompt ++ read e.line e.lineLength,(config.prompt ++ read e.line e.lineLength).length,
    .ground⟩) rfl (e.lineLength - e.cursor)
  have hcolumn : (config.prompt ++ read e.line e.lineLength).length - (e.lineLength - e.cursor) =
      config.prompt.length + e.cursor := by
    have hcursor := h.cursor
    rw [List.length_append, length_read]
    omega
  rw [hcolumn] at hleft
  exact hleft

/-! ## Incremental output -/

theorem moveLeft_follows (config : Config) (h : Sound Printable e) (word : Bool) : Follows config e (moveLeft word e) := by
  unfold moveLeft
  split
  · exact Follows.beep config e
  · dsimp only
    generalize hcursor : (if word = true then skipLeft (fun c => !isSpace c) e.line (skipLeft isSpace e.line e.cursor)
      else e.cursor - 1) = cursor
    have hle : cursor ≤ e.cursor := by
      rw [← hcursor]
      split
      · exact Nat.le_trans (skipLeft_le _ _ _) (skipLeft_le _ _ _)
      · exact Nat.sub_le _ _
    have hleft := feed_left (s := shown config e) rfl (e.cursor - cursor)
    have hcolumn : config.prompt.length + e.cursor - (e.cursor - cursor) = config.prompt.length + cursor := by omega
    refine Eq.trans hleft ?_
    unfold shown
    dsimp only
    rw [hcolumn]

theorem moveRight_follows (config : Config) (h : Sound Printable e) (word : Bool) : Follows config e (moveRight word e) := by
  unfold moveRight
  split
  · exact Follows.beep config e
  · dsimp only
    generalize hcursor : (if word = true then
        skipRight isSpace e.line (e.lineLength - skipRight (fun c => !isSpace c) e.line (e.lineLength - e.cursor) e.cursor)
          (skipRight (fun c => !isSpace c) e.line (e.lineLength - e.cursor) e.cursor)
      else e.cursor + 1) = cursor
    have hle : e.cursor ≤ cursor := by
      rw [← hcursor]
      split
      · exact Nat.le_trans (le_skipRight _ _ _ _) (le_skipRight _ _ _ _)
      · exact Nat.le_succ _
    have hright := feed_right (s := shown config e) rfl (cursor - e.cursor)
    have hcolumn : config.prompt.length + e.cursor + (cursor - e.cursor) = config.prompt.length + cursor := by omega
    refine Eq.trans hright ?_
    unfold shown
    dsimp only
    rw [hcolumn]

/-- The character and the rest of the line behind it are written over the rest, and the cursor goes back. -/
theorem insert_follows (config : Config) (h : Sound Printable e) {c : UInt8} (hc : Printable c) : Follows config e (insert c e) := by
  unfold insert
  split
  · exact Follows.beep config e
  · rename_i hfull
    -- the line before the cursor, and the rest of it
    obtain ⟨front,rest,hline,hfront,hrest⟩ : ∃ front rest, read e.line e.lineLength = front ++ rest ∧ front.length = e.cursor ∧
        rest.length = e.lineLength - e.cursor := by
      refine ⟨(read e.line e.lineLength).take e.cursor,(read e.line e.lineLength).drop e.cursor,?_,?_,?_⟩
      · exact (List.take_append_drop _ _).symm
      · rw [List.length_take, length_read, Nat.min_eq_left h.cursor]
      · rw [List.length_drop, length_read]
    have hread := read_insert e.line e.lineLength h.cursor c
    rw [hline, List.take_left' hfront, List.drop_left' hfront] at hread
    generalize hbuffer : store (copy e.line (e.cursor + 1) (fun i => e.line (e.cursor + i)) (e.lineLength - e.cursor)) e.cursor c =
      buffer at hread
    have hnew : read (store buffer (e.lineLength + 1) 0) (e.lineLength + 1) = front ++ [c] ++ rest := by
      rw [read_store _ _ (Nat.le_refl _), hread]
    have htail : read (fun i => store buffer (e.lineLength + 1) 0 (e.cursor + 1 + i)) (e.lineLength - e.cursor) = rest := by
      have hdrop := drop_read (store buffer (e.lineLength + 1) 0) (e.lineLength + 1) (Nat.succ_le_succ h.cursor)
      have hlength : (front ++ [c]).length = e.cursor + 1 := by
        rw [List.length_append, hfront, List.length_singleton]
      rw [hnew, List.drop_left' hlength, Nat.succ_sub_succ] at hdrop
      exact hdrop.symm
    have hprintable : ∀ x ∈ c :: rest, Printable x := by
      refine List.forall_mem_cons.mpr ⟨hc,fun x hx => h.line.all x ?_⟩
      rw [hline]
      exact List.mem_append_right front hx
    have hfeed := feed_printable (c :: rest) hprintable (config.prompt ++ front) rest
    have hleft := feed_left (s := ⟨config.prompt ++ (front ++ [c] ++ rest),config.prompt.length + e.cursor + 1 + rest.length,.ground⟩)
      rfl (e.lineLength - e.cursor)
    have hover : rest.drop (c :: rest).length = [] := List.drop_of_length_le (Nat.le_succ _)
    have hcolumn : config.prompt.length + e.cursor + (c :: rest).length = config.prompt.length + e.cursor + 1 + rest.length := by
      rw [List.length_cons]
      omega
    have hback : config.prompt.length + e.cursor + 1 + rest.length - (e.lineLength - e.cursor) = config.prompt.length + (e.cursor + 1) := by
      rw [hrest]
      omega
    have hshown : shown config e = ⟨config.prompt ++ front ++ rest,(config.prompt ++ front).length,.ground⟩ := by
      rw [shown, hline, List.length_append, hfront, List.append_assoc]
    have hrow : config.prompt ++ front ++ c :: rest ++ [] = config.prompt ++ (front ++ [c] ++ rest) := by
      simp only [List.append_assoc, List.append_nil, List.singleton_append]
    rw [hover, hrow, List.length_append, hfront, hcolumn] at hfeed
    rw [hback] at hleft
    unfold Follows
    dsimp only [markEdited]
    rw [hbuffer, htail, List.singleton_append, feed_append, hshown, List.length_append, hfront, hfeed]
    refine Eq.trans hleft ?_
    unfold shown
    dsimp only
    rw [hnew]

/-! ## Output of the whole row -/

include hprompt in
/-- Where nothing but the bell or the whole row is written. -/
theorem Follows.of_output {r : Editor × Text} (h : Sound Printable r.1)
    (hr : r = (e,[]) ∨ r = (e,Cli.beep) ∨ r.2 = Cli.redraw config r.1) : Follows config e r := by
  rcases hr with rfl | rfl | hr
  · exact Follows.unchanged config e
  · exact Follows.beep config e
  · rw [Follows, hr]
    exact feed_redraw hprompt rfl h

theorem historyUp_output (config : Config) (e : Editor) :
    historyUp config e = (e,beep) ∨ (historyUp config e).2 = redraw config (historyUp config e).1 := by
  unfold historyUp
  split
  · exact Or.inl rfl
  split
  · exact Or.inr rfl
  split
  · exact Or.inr rfl
  · exact Or.inl rfl

theorem historyDown_output (config : Config) (e : Editor) :
    historyDown config e = (e,beep) ∨ (historyDown config e).2 = redraw config (historyDown config e).1 := by
  unfold historyDown
  split
  · exact Or.inl rfl
  split
  · exact Or.inr rfl
  · exact Or.inr rfl

theorem backspace_output (config : Config) (e : Editor) :
    backspace config e = (e,beep) ∨ (backspace config e).2 = redraw config (backspace config e).1 := by
  unfold backspace
  split
  · exact Or.inl rfl
  · exact Or.inr rfl

theorem delete_output (config : Config) (e : Editor) :
    delete config e = (e,beep) ∨ (delete config e).2 = redraw config (delete config e).1 := by
  unfold delete
  split
  · exact Or.inl rfl
  · exact Or.inr rfl

theorem cutRange_output (config : Config) (start stop : ℕ) (e : Editor) :
    cutRange config start stop e = (e,[]) ∨ (cutRange config start stop e).2 = redraw config (cutRange config start stop e).1 := by
  unfold cutRange
  split
  · exact Or.inl rfl
  · exact Or.inr rfl

theorem pasteCutBuffer_output (config : Config) (e : Editor) :
    pasteCutBuffer config e = (e,[]) ∨ (pasteCutBuffer config e).2 = redraw config (pasteCutBuffer config e).1 := by
  unfold pasteCutBuffer
  split
  · exact Or.inl rfl
  · exact Or.inr rfl

theorem replace_output (config : Config) (start prefixLength : ℕ) (replacement : Text) (appendSpace : Bool) (e : Editor) :
    replace config start prefixLength replacement appendSpace e = (e,[]) ∨
      replace config start prefixLength replacement appendSpace e = (e,beep) ∨
      (replace config start prefixLength replacement appendSpace e).2 =
        redraw config (replace config start prefixLength replacement appendSpace e).1 := by
  unfold replace
  split
  · exact Or.inl rfl
  by_cases hfull : lineMax ≤ (if spaceFollows replacement appendSpace = true then
      start + replacement.length + (e.lineLength - e.cursor) + 1 else start + replacement.length + (e.lineLength - e.cursor))
  · exact Or.inr (Or.inl (if_pos hfull))
  · refine Or.inr (Or.inr ?_)
    dsimp only
    rw [if_neg hfull]

theorem deletePreviousWord_output (config : Config) (e : Editor) :
    deletePreviousWord config e = (e,[]) ∨ (deletePreviousWord config e).2 = redraw config (deletePreviousWord config e).1 := by
  unfold deletePreviousWord
  split
  · exact Or.inl rfl
  · exact cutRange_output config _ _ e

theorem deleteNextWord_output (config : Config) (e : Editor) :
    deleteNextWord config e = (e,[]) ∨ (deleteNextWord config e).2 = redraw config (deleteNextWord config e).1 := by
  unfold deleteNextWord
  split
  · exact Or.inl rfl
  · exact cutRange_output config _ _ e

/-- The words that are offered are listed in rows of their own, behind which the row is written again. -/
theorem complete_follows (hprompt : ∀ c ∈ config.prompt, Printable c) (h : Sound Printable e) {answer : Option Completion}
    (hanswer : Offers Printable answer) : Follows config e (complete config answer e) := by
  have hrefined := complete_refined h config (by decide) hanswer
  cases answer with
  | none => exact Follows.beep config e
  | some c =>
    have hfirst : ∀ x ∈ (c.candidates ⟨0,by decide⟩).text, Printable x := hanswer c rfl _
    have hwords : ∀ word ∈ c.words, ∀ x ∈ word, Printable x := by
      intro word hword x hx
      obtain ⟨candidate,hmem,rfl⟩ := List.mem_map.mp hword
      obtain ⟨i,rfl⟩ := List.mem_ofFn.mp (List.mem_of_mem_take hmem)
      exact hanswer c rfl i x hx
    have hlisting : ∀ x ∈ c.words.flatMap (· ++ [32,32]), Printable x := by
      intro x hx
      obtain ⟨word,hword,hx⟩ := List.mem_flatMap.mp hx
      rcases List.mem_append.mp hx with hx | hx
      · exact hwords word hword x hx
      · have hspace : Printable 32 := by decide
        have hspaces : ∀ x ∈ ([32,32] : Text), Printable x := by simp [hspace]
        exact hspaces x hx
    -- how the part before the listing ends
    have hlist {r : Editor × Text} (hsound : Sound Printable r.1) (hr : Follows config e r) :
        Follows config e (r.1,r.2 ++ newLine ++ c.words.flatMap (· ++ [32,32]) ++ newLine ++ redraw config r.1) := by
      have hground : (feed (shown config r.1) newLine).pending = .ground := congrArg Screen.pending (feed_newLine rfl)
      have hlisted := feed_ground (c.words.flatMap (· ++ [32,32])) hground hlisting
      have hend : (feed (feed (feed (shown config r.1) newLine) (c.words.flatMap (· ++ [32,32]))) newLine).pending = .ground :=
        congrArg Screen.pending (feed_newLine hlisted)
      unfold Follows at hr ⊢
      dsimp only
      rw [feed_append, feed_append, feed_append, feed_append, hr]
      exact feed_redraw hprompt hend hsound
    revert hrefined
    unfold complete
    dsimp only
    split
    · exact fun _ => Follows.beep config e
    split
    · exact fun _ => Follows.beep config e
    split
    · exact fun hrefined => Follows.of_output hprompt hrefined.sound (replace_output config _ _ _ _ e)
    split
    · exact fun hrefined => hlist hrefined.sound (Follows.of_output hprompt hrefined.sound (replace_output config _ _ _ _ e))
    · exact fun hrefined => hlist hrefined.sound (Follows.unchanged config e)

/-- The callbacks, as far as they show: the words offered can be printed, and a line that is submitted asks for a new prompt
and leaves the terminal at the start of an empty row. -/
structure Quiet (answers : Answers) : Prop where
  offers : Offers Printable answers.completion
  prompts : answers.submitResult = submitPrompt
  clears : feed ⟨[],0,.ground⟩ answers.submitOutput = ⟨[],0,.ground⟩

/-- A prompt in an empty row. -/
theorem feed_prompt (hprompt : ∀ c ∈ config.prompt, Printable c) (e : Editor) :
    feed ⟨[],0,.ground⟩ config.prompt = shown config (reset e) := by
  have hfeed := feed_end config.prompt hprompt []
  rw [List.nil_append, List.length_nil] at hfeed
  rw [hfeed]
  unfold shown reset
  dsimp only
  rw [read_zero, List.append_nil, Nat.add_zero]

/-- The screen follows every operation. -/
theorem perform_follows (hprompt : ∀ c ∈ config.prompt, Printable c) (h : Sound Printable e) {operation : Operation}
    {answers : Answers} (hquiet : Quiet answers) (hinserted : ∀ c, operation = .insert c → Printable c) :
    feed (shown config e) (perform config answers operation e).output = shown config (perform config answers operation e).editor := by
  cases operation with
  | nothing => exact Follows.unchanged config e
  | beep => exact Follows.beep config e
  | redraw => exact feed_redraw hprompt rfl h
  | historyUp => exact Follows.of_output hprompt (historyUp_refined h config).sound (Or.inr (historyUp_output config e))
  | historyDown => exact Follows.of_output hprompt (historyDown_refined h config).sound (Or.inr (historyDown_output config e))
  | home => exact Follows.of_output hprompt (moveTo_refined h config (Nat.zero_le _)).sound (Or.inr (Or.inr rfl))
  | toEnd => exact Follows.of_output hprompt (moveTo_refined h config (Nat.le_refl _)).sound (Or.inr (Or.inr rfl))
  | delete => exact Follows.of_output hprompt (delete_refined h config).sound (Or.inr (delete_output config e))
  | backspace => exact Follows.of_output hprompt (backspace_refined h config).sound (Or.inr (backspace_output config e))
  | deletePreviousWord =>
    exact Follows.of_output hprompt (deletePreviousWord_refined h config).sound ((deletePreviousWord_output config e).imp_right Or.inr)
  | deleteNextWord =>
    exact Follows.of_output hprompt (deleteNextWord_refined h config).sound ((deleteNextWord_output config e).imp_right Or.inr)
  | cutToEnd =>
    exact Follows.of_output hprompt (cutRange_refined h config _ _).sound ((cutRange_output config _ _ e).imp_right Or.inr)
  | cutToStart =>
    exact Follows.of_output hprompt (cutRange_refined h config _ _).sound ((cutRange_output config _ _ e).imp_right Or.inr)
  | paste =>
    exact Follows.of_output hprompt (pasteCutBuffer_refined h config).sound ((pasteCutBuffer_output config e).imp_right Or.inr)
  | complete => exact complete_follows hprompt h hquiet.offers
  | submit =>
    have hnewLine := feed_newLine (s := shown config e) rfl
    have hreset := feed_prompt hprompt (addHistory e)
    rw [perform, submit]
    dsimp only
    rw [if_pos hquiet.prompts, feed_append, feed_append, newLine, hnewLine, hquiet.clears, hreset]
  | interrupt =>
    have hcaret : Printable 94 := by decide
    have hletter : Printable 67 := by decide
    have hecho : (feed (shown config e) [94,67]).pending = .ground :=
      feed_ground [94,67] rfl (List.forall_mem_cons.mpr ⟨hcaret,List.forall_mem_singleton.mpr hletter⟩)
    have hnewLine := feed_newLine hecho
    rw [perform, interrupt, goesOn]
    dsimp only
    rw [feed_append, feed_append, newLine, hnewLine]
    exact feed_prompt hprompt e
  | deleteOrEnd =>
    rw [perform]
    split
    · exact Follows.unchanged config e
    · exact Follows.of_output hprompt (delete_refined h config).sound (Or.inr (delete_output config e))
  | moveLeft word => exact moveLeft_follows config h word
  | moveRight word => exact moveRight_follows config h word
  | insert c => exact insert_follows config h (hinserted c rfl)

end

/-- What is written in a run. -/
def outputs (config : Config) : Editor → List Event → Text
  | _, [] => []
  | e, event :: events =>
    (handleByte config event.2 e event.1).output ++ outputs config (handleByte config event.2 e event.1).editor events

theorem isPrint_printable (c : UInt8) (hc : isPrint c = true) : Printable c := by
  obtain ⟨hle,hge⟩ := of_decide_eq_true hc
  refine ⟨hle,?_⟩
  rintro rfl
  exact absurd hge (by decide)

theorem outputs_shown {config : Config} (hprompt : ∀ c ∈ config.prompt, Printable c) {e : Editor} (h : Sound Printable e)
    {events : List Event} (hevents : ∀ event ∈ events, Quiet event.2) :
    feed (shown config e) (outputs config e events) = shown config (run config e events) := by
  induction events generalizing e with
  | nil => exact Eq.refl _
  | cons event events ih =>
    obtain ⟨hevent,hrest⟩ := List.forall_mem_cons.mp hevents
    have hsound := (handleByte_sound config (by decide) isPrint_printable h hevent.offers event.1).1
    have hkeys := h.keys (decode e.escapeState e.escapeParameters event.1).1 (decode e.escapeState e.escapeParameters event.1).2.1
    have hinserted : ∀ c, (decode e.escapeState e.escapeParameters event.1).2.2 = .insert c → Printable c :=
      fun c hc => isPrint_printable c (decode_insert hc)
    have hfollows := perform_follows hprompt hkeys hevent hinserted
    have hstep : feed (shown config e) (handleByte config event.2 e event.1).output =
        shown config (handleByte config event.2 e event.1).editor := hfollows
    rw [outputs, feed_append, hstep]
    exact ih hsound hrest

/-- From a row with the prompt alone, after any bytes the row is the prompt and the line, and the cursor is where the editor has it. -/
theorem editor_display_law {config : Config} (hprompt : ∀ c ∈ config.prompt, Printable c) {events : List Event}
    (hevents : ∀ event ∈ events, Quiet event.2) :
    feed ⟨config.prompt,config.prompt.length,.ground⟩ (outputs config init events) =
      ⟨config.prompt ++ read (run config init events).line (run config init events).lineLength,
        config.prompt.length + (run config init events).cursor,.ground⟩ := by
  have hinit : shown config init = ⟨config.prompt,config.prompt.length,.ground⟩ := by
    unfold shown init
    dsimp only
    rw [read_zero, List.append_nil, Nat.add_zero]
  have hrun := outputs_shown hprompt init_sound hevents
  rw [hinit] at hrun
  exact hrun

def sampleConfig : Config := ⟨[62,32],false⟩

def sampleAnswers : Answers := ⟨none,0,[]⟩

/-- `ab`, back to the `a`, and a `c` before it. -/
def sampleEvents : List Event := [97,98,1,99].map fun c => (c,sampleAnswers)

theorem editor_display_law_sample :
    feed ⟨sampleConfig.prompt,sampleConfig.prompt.length,.ground⟩ (outputs sampleConfig init sampleEvents) =
      ⟨sampleConfig.prompt ++ read (run sampleConfig init sampleEvents).line (run sampleConfig init sampleEvents).lineLength,
        sampleConfig.prompt.length + (run sampleConfig init sampleEvents).cursor,.ground⟩ := by
  apply editor_display_law
  · have hprompt : Printable 62 ∧ Printable 32 := by decide
    exact List.forall_mem_cons.mpr ⟨hprompt.1,List.forall_mem_singleton.mpr hprompt.2⟩
  · intro event hevent
    obtain ⟨c,-,rfl⟩ := List.mem_map.mp hevent
    exact ⟨nofun,rfl,rfl⟩

end Bvstk.Cli
