import Bvstk.Fat.TarExtract

/-! # Unpacking stays under its directory

Whatever the archive says, files and directories are made under the destination only, and
success means that the archive ended in two blocks of zeros.
-/
namespace Bvstk.Fat
open Bvstk.Fs Bvstk.Config CallLog

/-- A relative path that cannot leave a directory. -/
structure Relative (rel : Name) : Prop where
  nonempty : rel ≠ []
  noLeadingSlash : rel.head? ≠ some slash
  noDrive : colon ∉ rel
  noDotDot : ∀ name ∈ rel.splitOnP isSeparator, name ≠ [46,46]

/-- The destination joined with such a path. -/
def Under (dest path : Path) : Prop := ∃ rel, Relative rel ∧ path = asParent dest ++ rel

/-- What may be called: directories that are part of the destination's path, and whatever is
under it. -/
def Contained (dest : Path) : ExtractCall → Prop
  | .mkdir path => path <+: dest ∨ Under dest path
  | .openWrite path => Under dest path
  | .write path _ => Under dest path
  | .close path => Under dest path

/-! ## Names -/

theorem hasDotDot_within {a b : Name} (h : hasDotDot (a ++ b) = false) : hasDotDot a = false := by
  induction a with
  | nil => rfl
  | cons c a ih =>
    cases a with
    | nil => rfl
    | cons d a =>
      simp only [List.cons_append, hasDotDot, Bool.or_eq_false_iff] at h ⊢
      exact ⟨h.1,ih h.2⟩

theorem relpathSafe_prefix {rel whole : Name} (h : relpathSafe whole = true) (hpre : rel <+: whole) (hne : rel ≠ []) :
    relpathSafe rel = true := by
  obtain ⟨rest,rfl⟩ := hpre
  simp only [relpathSafe, Bool.and_eq_true, decide_eq_true_eq, Bool.not_eq_true'] at h ⊢
  obtain ⟨⟨-,hhead,hcolon⟩,hdots⟩ := h
  refine ⟨⟨hne,?_,fun hmem => hcolon (List.mem_append_left _ hmem)⟩,hasDotDot_within hdots⟩
  rwa [List.head?_append_of_ne_nil _ hne] at hhead

/-- The parts between separators are parts of the whole, the first at its start. -/
theorem splitOnP_within {α : Type*} (p : α → Bool) (xs : List α) :
    (∀ first rest, xs.splitOnP p = first :: rest → first <+: xs) ∧ ∀ part ∈ xs.splitOnP p, part <:+: xs := by
  induction xs with
  | nil => simp
  | cons x xs ih =>
    obtain ⟨hfirst,hpart⟩ := ih
    rw [List.splitOnP_cons_eq_if_modifyHead]
    split_ifs with hx
    · constructor
      · rintro first rest heq
        rw [List.cons.injEq] at heq
        exact heq.1 ▸ List.nil_prefix
      · intro part hmem
        rcases List.mem_cons.mp hmem with rfl | hmem
        · exact List.nil_infix
        · exact List.infix_cons (hpart part hmem)
    · obtain ⟨first,rest,hsplit⟩ := List.exists_cons_of_ne_nil (List.splitOnP_ne_nil p xs)
      rw [hsplit, List.modifyHead_cons]
      have hstart : x :: first <+: x :: xs := (List.prefix_cons_inj x).mpr (hfirst first rest hsplit)
      constructor
      · rintro first' rest' heq
        rw [List.cons.injEq] at heq
        exact heq.1 ▸ hstart
      · intro part hmem
        rcases List.mem_cons.mp hmem with rfl | hmem
        · exact hstart.isInfix
        · exact List.infix_cons (hpart part (hsplit ▸ List.mem_cons_of_mem first hmem))

/-- A part between separators that is `..` shows in the whole. -/
theorem dotDot_of_component {rel : Name} (h : [46,46] ∈ rel.splitOnP isSeparator) : hasDotDot rel = true := by
  obtain ⟨a,b,rfl⟩ := (splitOnP_within isSeparator rel).2 _ h
  rw [← Bool.not_eq_false]
  intro hnone
  have hnone' := hasDotDot_within hnone
  clear h hnone
  induction a with
  | nil => exact absurd hnone' (by decide)
  | cons c a ih =>
    cases a with
    | nil => simp [hasDotDot] at hnone'
    | cons d a =>
      simp only [List.cons_append, hasDotDot, Bool.or_eq_false_iff] at hnone'
      exact ih hnone'.2

theorem relative_of_safe {rel : Name} (h : relpathSafe rel = true) : Relative rel := by
  simp only [relpathSafe, Bool.and_eq_true, decide_eq_true_eq, Bool.not_eq_true'] at h
  obtain ⟨⟨hne,hhead,hcolon⟩,hdots⟩ := h
  refine ⟨hne,hhead,hcolon,?_⟩
  rintro name hname rfl
  exact absurd (dotDot_of_component hname) (by simp [hdots])

/-! ## Directories -/

/-- A directory made on the way to a path. -/
def OnTheWay (path : Path) : ExtractCall → Prop
  | .mkdir p => p = path ∨ p ++ [slash] <+: path
  | _ => False

section
variable {β : Type} (P : ExtractOutside β)

theorem makeDir_makes {Q : List UInt8 → ExtractCall → Prop} {path : Path} {w : ExtractWorld β} (h : Q w.state (.mkdir path)) :
    Makes Q w (makeDir P path w).2 :=
  ⟨_,rfl,fun _ hp => List.mem_singleton.mp hp ▸ h⟩

theorem makeDirs_makes (done rest : Path) (w : ExtractWorld β) :
    Makes (fun _ => OnTheWay (done ++ rest)) w (makeDirs P done rest w).2 := by
  induction rest generalizing done w with
  | nil => exact makes_refl w
  | cons c rest ih =>
    have hpath : done ++ c :: rest = (done ++ [c]) ++ rest := by simp
    have hrest := ih (done ++ [c])
    rw [← hpath] at hrest
    unfold makeDirs
    split_ifs with hc
    · have hmade : Makes (fun _ => OnTheWay (done ++ c :: rest)) w (makeDir P done w).2 := by
        refine makeDir_makes P (Or.inr ?_)
        rw [hpath, hc.1]
        exact List.prefix_append _ _
      split
      · rename_i w' hw'
        rw [hw'] at hmade
        exact hmade
      · rename_i w' hw'
        rw [hw'] at hmade
        exact hmade.trans (hrest w')
    · exact hrest w

/-- Without its last separator. -/
theorem onTheWay_of_stripped {path : Path} {c : ExtractCall}
    (h : OnTheWay (if path.getLast? = some slash then path.dropLast else path) c) : OnTheWay path c := by
  split_ifs at h with hlast
  · have hpath : path.dropLast ++ [slash] = path := List.dropLast_append_getLast? slash hlast
    cases c with
    | mkdir p =>
      rcases h with hp | hpre
      · subst hp
        exact Or.inr ⟨[],by rw [List.append_nil, hpath]⟩
      · exact Or.inr (hpre.trans (List.dropLast_prefix path))
    | _ => exact h
  · exact h

/-- A path that is not too long gets the directories on the way to it. -/
theorem mkdirP_makes (path : Path) (w : ExtractWorld β) :
    Makes (fun _ => OnTheWay (path.take (tarPathMax - 1))) w (mkdirP P path w).2 := by
  have hstripped : ∀ c, OnTheWay (if (path.take (tarPathMax - 1)).getLast? = some slash then
      (path.take (tarPathMax - 1)).dropLast else path.take (tarPathMax - 1)) c → OnTheWay (path.take (tarPathMax - 1)) c :=
    fun c h => onTheWay_of_stripped h
  unfold mkdirP
  dsimp only
  generalize (if (path.take (tarPathMax - 1)).getLast? = some slash then
    (path.take (tarPathMax - 1)).dropLast else path.take (tarPathMax - 1)) = tmp at hstripped ⊢
  by_cases hempty : path.take (tarPathMax - 1) = []
  · rw [if_pos hempty]
    exact makes_refl w
  rw [if_neg hempty]
  generalize (if tmp[1]? = some colon ∧ tmp[2]? = some slash then 3 else 0) = drive
  split_ifs with hroot hbare
  · exact makes_refl w
  · exact makes_refl w
  have hdirs := makeDirs_makes P (tmp.take drive) (tmp.drop drive) w
  rw [List.take_append_drop] at hdirs
  split
  · rename_i w' hw'
    rw [hw'] at hdirs
    exact hdirs.mono fun _ c h => hstripped c h
  · rename_i w' hw'
    rw [hw'] at hdirs
    exact (hdirs.mono fun _ c h => hstripped c h).trans (makeDir_makes P (hstripped _ (Or.inl rfl)))

/-! ## Entries -/

theorem prefix_of_asParent {p dest : Path} (h : p ++ [slash] <+: asParent dest) : p <+: dest := by
  unfold asParent at h
  split_ifs at h with hlast
  · exact (List.prefix_append p _).trans h
  · have hlen : p.length ≤ dest.length := by simpa using h.length_le
    exact List.prefix_of_prefix_length_le ((List.prefix_append p _).trans h) (List.prefix_append dest _) hlen

/-- The directories on the way to something under the destination. -/
theorem contained_of_onTheWay {dest : Path} {rel : Name} (hsafe : relpathSafe rel = true) {c : ExtractCall}
    (h : OnTheWay (asParent dest ++ rel) c) : Contained dest c := by
  have hhead : rel.head? ≠ some slash := (relative_of_safe hsafe).noLeadingSlash
  cases c with
  | mkdir p =>
    rcases h with rfl | hpre
    · exact Or.inr ⟨rel,relative_of_safe hsafe,rfl⟩
    rcases List.prefix_or_prefix_of_prefix hpre (List.prefix_append (asParent dest) rel) with hbefore | hbehind
    · exact Or.inl (prefix_of_asParent hbefore)
    · obtain ⟨part,hpart⟩ := hbehind
      rw [← hpart, List.prefix_append_right_inj] at hpre
      rcases List.eq_nil_or_concat part with rfl | ⟨inner,last,rfl⟩
      · rw [List.append_nil] at hpart
        exact Or.inl (prefix_of_asParent ⟨[],by rw [List.append_nil, hpart]⟩)
      · rw [List.concat_eq_append] at hpart hpre
        rw [← List.append_assoc] at hpart
        obtain ⟨hp,hlast⟩ := List.append_inj' hpart rfl
        rw [List.cons.injEq] at hlast
        have hinner : inner ≠ [] := by
          rintro rfl
          obtain ⟨rest,rfl⟩ := hpre
          simp [hlast.1] at hhead
        have hsafe' := relpathSafe_prefix hsafe ((List.prefix_append inner _).trans hpre) hinner
        exact Or.inr ⟨inner,relative_of_safe hsafe',hp.symm⟩
  | _ => exact h.elim

theorem parentPath_start {path : Path} (h : slash ∈ path) : parentPath path ++ [slash] <+: path := by
  have hsplit : path.reverse.dropWhile (· != slash) ≠ [] := by
    intro hnone
    have hall := List.dropWhile_eq_nil_iff.mp hnone slash (List.mem_reverse.mpr h)
    simp at hall
  obtain ⟨c,rest,hrest⟩ := List.exists_cons_of_ne_nil hsplit
  have hc : c = slash := by
    have hhead := List.head_dropWhile_not (· != slash) hsplit
    simpa [hrest] using hhead
  refine ⟨(path.reverse.takeWhile (· != slash)).reverse,?_⟩
  have hwhole := congrArg List.reverse (List.takeWhile_append_dropWhile (p := (· != slash)) (l := path.reverse))
  rw [List.reverse_append, List.reverse_reverse, hrest, List.reverse_cons, hc] at hwhole
  unfold parentPath
  rw [hrest, List.drop_one, List.tail_cons]
  exact hwhole

theorem makeParent_makes (path : Path) (w : ExtractWorld β) : Makes (fun _ => OnTheWay path) w (makeParent P path w).2 := by
  unfold makeParent
  split_ifs with hslash hlong
  · exact makes_refl w
  · have hfits : (parentPath path).take (tarPathMax - 1) = parentPath path := List.take_of_length_le (by omega)
    have hmade := mkdirP_makes P (parentPath path) w
    rw [hfits] at hmade
    refine hmade.mono ?_
    intro _ c h
    cases c with
    | mkdir p =>
      rcases h with rfl | hpre
      · exact Or.inr (parentPath_start hslash)
      · exact Or.inr (hpre.trans ((List.prefix_append _ _).trans (parentPath_start hslash)))
    | _ => exact h
  · exact makes_refl w

/-! ## What is read -/

theorem readCallback_calls (wanted : ℕ) (w : ExtractWorld β) : (readCallback P wanted w).2.calls = w.calls := by
  unfold readCallback
  dsimp only
  split_ifs <;> rfl

/-- Bytes given are the next ones of the archive, at least one and no more than wanted. -/
theorem readCallback_some {wanted : ℕ} {w w' : ExtractWorld β} {bytes : List UInt8}
    (h : readCallback P wanted w = (some bytes,w')) :
    w.state = bytes ++ w'.state ∧ 0 < bytes.length ∧ bytes.length ≤ wanted := by
  unfold readCallback at h
  dsimp only at h
  split_ifs at h with hnone
  · cases h
  cases h
  refine ⟨?_,List.length_pos_of_ne_nil hnone,?_⟩
  · conv_lhs => rw [← List.take_append_drop (min (P.chunk w.env wanted).1 wanted) w.state]
    rw [List.length_take]
    congr 1
    rcases le_total (min (P.chunk w.env wanted).1 wanted) w.state.length with hle | hle
    · rw [min_eq_left hle]
    · rw [min_eq_right hle, List.drop_eq_nil_of_le hle, List.drop_eq_nil_of_le le_rfl]
  · rw [List.length_take]
    omega

theorem readAll_calls (turns left : ℕ) (w : ExtractWorld β) : (readAll P turns left w).2.calls = w.calls := by
  induction turns generalizing left w with
  | zero => cases left <;> rfl
  | succ turns ih =>
    cases left with
    | zero => rfl
    | succ left =>
      have hcalls := readCallback_calls P (left + 1) w
      unfold readAll
      split
      · rename_i w' hw'
        rwa [hw'] at hcalls
      · rename_i bytes w' hw'
        rw [hw'] at hcalls
        have hrest := ih (left + 1 - bytes.length) w'
        split
        all_goals rename_i hr; rw [hr] at hrest; exact hrest.trans hcalls

theorem readAll_some {turns left : ℕ} {w w' : ExtractWorld β} {bytes : List UInt8}
    (h : readAll P turns left w = (some bytes,w')) : w.state = bytes ++ w'.state ∧ bytes.length = left := by
  induction turns generalizing left w bytes with
  | zero =>
    cases left with
    | zero => cases h; exact ⟨rfl,rfl⟩
    | succ left => cases h
  | succ turns ih =>
    cases left with
    | zero => cases h; exact ⟨rfl,rfl⟩
    | succ left =>
      unfold readAll at h
      split at h
      · cases h
      rename_i first w1 hfirst
      obtain ⟨hstate,-,hlen⟩ := readCallback_some P hfirst
      split at h
      · cases h
      rename_i rest w2 hrest
      cases h
      obtain ⟨hstate',hlen'⟩ := ih hrest
      constructor
      · rw [hstate, hstate', List.append_assoc]
      · rw [List.length_append, hlen']
        omega

/-- As many turns as bytes are enough, whatever the callback gives at once. -/
theorem readAll_turns {turns left : ℕ} (h : left ≤ turns) (w : ExtractWorld β) :
    readAll P turns left w = readAll P left left w := by
  induction turns using Nat.strong_induction_on generalizing left w with
  | _ turns ih =>
    cases left with
    | zero => cases turns <;> rfl
    | succ left =>
      obtain ⟨turns,rfl⟩ : ∃ t, turns = t + 1 := ⟨turns - 1,by omega⟩
      unfold readAll
      split
      · rfl
      · rename_i bytes w' hbytes
        obtain ⟨-,hpos,-⟩ := readCallback_some P hbytes
        rw [ih turns (by omega) (by omega) w']
        rcases Nat.lt_or_ge left turns with hlt | hge
        · rw [ih left (by omega) (by omega) w']
        · rw [show left = turns by omega, ih turns (by omega) (by omega) w']

/-- From `w` to `w'` so many bytes of the archive were read. -/
def Takes (n : ℕ) (w w' : ExtractWorld β) : Prop := ∃ bytes : List UInt8, bytes.length = n ∧ w.state = bytes ++ w'.state

theorem takes_of_state {w w' : ExtractWorld β} (h : w'.state = w.state) : Takes 0 w w' := ⟨[],rfl,h.symm⟩

theorem Takes.trans {n n' : ℕ} {w w' w'' : ExtractWorld β} (h : Takes n w w') (h' : Takes n' w' w'') :
    Takes (n + n') w w'' := by
  obtain ⟨bytes,rfl,hstate⟩ := h
  obtain ⟨bytes',rfl,hstate'⟩ := h'
  exact ⟨bytes ++ bytes',by simp,by rw [hstate, hstate', List.append_assoc]⟩

theorem makeDirs_state (done rest : Path) (w : ExtractWorld β) : (makeDirs P done rest w).2.state = w.state := by
  induction rest generalizing done w with
  | nil => rfl
  | cons c rest ih =>
    have hmade : (makeDir P done w).2.state = w.state := rfl
    unfold makeDirs
    split_ifs with hc
    · split
      · rename_i w' hw'
        rwa [hw'] at hmade
      · rename_i w' hw'
        rw [hw'] at hmade
        exact (ih _ w').trans hmade
    · exact ih _ w

theorem mkdirP_state (path : Path) (w : ExtractWorld β) : (mkdirP P path w).2.state = w.state := by
  unfold mkdirP
  dsimp only
  generalize (if (path.take (tarPathMax - 1)).getLast? = some slash then
    (path.take (tarPathMax - 1)).dropLast else path.take (tarPathMax - 1)) = tmp
  generalize (if tmp[1]? = some colon ∧ tmp[2]? = some slash then 3 else 0) = drive
  have hdirs := makeDirs_state P (tmp.take drive) (tmp.drop drive) w
  split_ifs
  · rfl
  · rfl
  · rfl
  split
  all_goals
    rename_i w' hw'
    rw [hw'] at hdirs
    exact hdirs

theorem makeParent_state (path : Path) (w : ExtractWorld β) : (makeParent P path w).2.state = w.state := by
  unfold makeParent
  split_ifs
  · rfl
  · exact mkdirP_state P _ w
  · rfl

/-! ## What an entry does -/

theorem closeFile_makes {dest path : Path} (h : Under dest path) (w : ExtractWorld β) :
    Makes (fun _ => Contained dest) w (closeFile P path w) :=
  ⟨_,rfl,fun _ hp => List.mem_singleton.mp hp ▸ h⟩

theorem copyData_makes {dest path : Path} (h : Under dest path) (turns remaining : ℕ) (w : ExtractWorld β) :
    Makes (fun _ => Contained dest) w (copyData P path turns remaining w).2 := by
  induction turns generalizing remaining w with
  | zero => cases remaining <;> exact makes_refl w
  | succ turns ih =>
    cases remaining with
    | zero => exact makes_refl w
    | succ remaining =>
      have hcalls := readCallback_calls P (min (remaining + 1) 1024) w
      unfold copyData
      split
      · rename_i w' hw'
        rw [hw'] at hcalls
        exact (makes_of_calls hcalls).trans (closeFile_makes P h w')
      · rename_i bytes w' hw'
        rw [hw'] at hcalls
        dsimp only
        generalize hwritten : P.write w'.env path bytes = answer
        have hwrite : Makes (fun _ => Contained dest) w
            ⟨w'.state,answer.2,w'.calls ++ [(w'.state,ExtractCall.write path bytes)]⟩ :=
          (makes_of_calls hcalls).trans ⟨_,rfl,fun _ hp => List.mem_singleton.mp hp ▸ h⟩
        split_ifs
        · exact hwrite.trans (closeFile_makes P h _)
        · exact hwrite.trans (ih _ _)

theorem copyData_takes {path : Path} {turns remaining : ℕ} {w w' : ExtractWorld β}
    (h : copyData P path turns remaining w = (true,w')) : Takes remaining w w' := by
  induction turns generalizing remaining w with
  | zero =>
    cases remaining with
    | zero => cases h; exact takes_of_state rfl
    | succ remaining => cases h
  | succ turns ih =>
    cases remaining with
    | zero => cases h; exact takes_of_state rfl
    | succ remaining =>
      unfold copyData at h
      split at h
      · cases h
      rename_i bytes w1 hbytes
      obtain ⟨hstate,-,hlen⟩ := readCallback_some P hbytes
      dsimp only at h
      split_ifs at h with hfailed
      · cases h
      have hread : Takes bytes.length w
          ⟨w1.state,(P.write w1.env path bytes).2,w1.calls ++ [(w1.state,ExtractCall.write path bytes)]⟩ := ⟨bytes,rfl,hstate⟩
      have hall := hread.trans (ih h)
      rwa [show bytes.length + (remaining + 1 - bytes.length) = remaining + 1 by omega] at hall

/-- As many turns as bytes are enough for the data too. -/
theorem copyData_turns {path : Path} {turns remaining : ℕ} (h : remaining ≤ turns) (w : ExtractWorld β) :
    copyData P path turns remaining w = copyData P path remaining remaining w := by
  induction turns using Nat.strong_induction_on generalizing remaining w with
  | _ turns ih =>
    cases remaining with
    | zero => cases turns <;> rfl
    | succ remaining =>
      obtain ⟨turns,rfl⟩ : ∃ t, turns = t + 1 := ⟨turns - 1,by omega⟩
      unfold copyData
      split
      · rfl
      · rename_i bytes w' hbytes
        obtain ⟨-,hpos,-⟩ := readCallback_some P hbytes
        dsimp only
        split_ifs
        · rfl
        · rw [ih turns (by omega) (by omega)]
          rcases Nat.lt_or_ge remaining turns with hlt | hge
          · rw [ih remaining (by omega) (by omega)]
          · rw [show remaining = turns by omega, ih turns (by omega) (by omega)]

theorem extractFile_makes {dest path : Path} (h : Under dest path) (fsize : ℕ) (w : ExtractWorld β) :
    Makes (fun _ => Contained dest) w (extractFile P path fsize w).2 := by
  unfold extractFile
  dsimp only
  have hopen : Makes (fun _ => Contained dest) w
      ⟨w.state,(P.openWrite w.env path).2,w.calls ++ [(w.state,ExtractCall.openWrite path)]⟩ :=
    ⟨_,rfl,fun _ hp => List.mem_singleton.mp hp ▸ h⟩
  split_ifs
  · exact hopen
  have hcopy := hopen.trans (copyData_makes P h fsize fsize _)
  split
  · rename_i w' hw'
    rwa [hw'] at hcopy
  · rename_i w' hw'
    rw [hw'] at hcopy
    have hread := readAll_calls P ((tarBlock - fsize % tarBlock) % tarBlock) ((tarBlock - fsize % tarBlock) % tarBlock)
      (closeFile P path w')
    have hclosed := hcopy.trans (closeFile_makes P h w')
    unfold readExact
    split
    all_goals
      rename_i hr
      rw [hr] at hread
      exact hclosed.trans (makes_of_calls hread)

/-- A file takes whole blocks. -/
theorem extractFile_takes {path : Path} {fsize : ℕ} {w w' : ExtractWorld β} (h : extractFile P path fsize w = (true,w')) :
    ∃ n, tarBlock ∣ n ∧ Takes n w w' := by
  unfold extractFile at h
  dsimp only at h
  split_ifs at h with hfailed
  · cases h
  split at h
  · cases h
  rename_i w1 hcopied
  split at h
  · cases h
  rename_i skipped w2 hskipped
  cases h
  obtain ⟨hstate,hlen⟩ := readAll_some P hskipped
  have hopen : Takes 0 w ⟨w.state,(P.openWrite w.env path).2,w.calls ++ [(w.state,ExtractCall.openWrite path)]⟩ := takes_of_state rfl
  have hdata := hopen.trans (copyData_takes P hcopied)
  rw [Nat.zero_add] at hdata
  have hpad : Takes ((tarBlock - fsize % tarBlock) % tarBlock) w1 w' := ⟨skipped,hlen,hstate⟩
  refine ⟨_,?_,hdata.trans hpad⟩
  unfold tarBlock
  omega

theorem joinUnder_length {dest path : Path} {rel : Name} (h : joinUnder dest rel tarPathMax = some path) :
    path = asParent dest ++ rel ∧ path.take (tarPathMax - 1) = path := by
  unfold joinUnder at h
  split_ifs at h with hlong
  cases h
  refine ⟨rfl,List.take_of_length_le ?_⟩
  have hdest : (asParent dest).length ≤ dest.length + 1 := by
    unfold asParent
    split_ifs
    · exact Nat.le_succ _
    · simp
  rw [List.length_append]
  omega

theorem extractEntry_makes (dest : Path) (block : List UInt8) (w : ExtractWorld β) :
    Makes (fun _ => Contained dest) w (extractEntry P dest block w).2 := by
  unfold extractEntry
  dsimp only
  by_cases hsafe : relpathSafe (relativeName block) = false
  · rw [if_pos hsafe]
    exact makes_refl w
  rw [if_neg hsafe]
  rw [Bool.not_eq_false] at hsafe
  split
  · exact makes_refl w
  split
  · exact makes_refl w
  rename_i path hjoined
  obtain ⟨hpath,hshort⟩ := joinUnder_length hjoined
  have hunder : Under dest path := ⟨_,relative_of_safe hsafe,hpath⟩
  split_ifs
  · have hmade := mkdirP_makes P path w
    rw [hshort, hpath] at hmade
    exact hpath ▸ hmade.mono fun _ c hc => contained_of_onTheWay hsafe hc
  · have hparent := makeParent_makes P path w
    rw [hpath] at hparent
    have hparent' := hparent.mono fun _ c hc => contained_of_onTheWay hsafe hc
    rw [← hpath] at hparent'
    split
    · rename_i w' hw'
      rwa [hw'] at hparent'
    · rename_i w' hw'
      rw [hw'] at hparent'
      exact hparent'.trans (extractFile_makes P hunder _ w')

theorem extractEntry_takes {dest : Path} {block : List UInt8} {w w' : ExtractWorld β}
    (h : extractEntry P dest block w = (true,w')) : ∃ n, tarBlock ∣ n ∧ Takes n w w' := by
  unfold extractEntry at h
  dsimp only at h
  by_cases hsafe : relpathSafe (relativeName block) = false
  · rw [if_pos hsafe] at h
    cases h
  rw [if_neg hsafe] at h
  split at h
  · cases h
  split at h
  · cases h
  rename_i path hjoined
  split_ifs at h with hdir
  · have hstate := mkdirP_state P path w
    rw [h] at hstate
    exact ⟨0,Nat.dvd_zero _,takes_of_state hstate⟩
  · have hstate := makeParent_state P path w
    split at h
    · cases h
    rename_i w1 hw1
    rw [hw1] at hstate
    obtain ⟨n,hn,htakes⟩ := extractFile_takes P h
    have hall := (takes_of_state hstate).trans htakes
    rw [Nat.zero_add] at hall
    exact ⟨n,hn,hall⟩

/-! ## The whole archive -/

theorem extractLoop_makes (dest : Path) (turns zeroBlocks : ℕ) (w : ExtractWorld β) :
    Makes (fun _ => Contained dest) w (extractLoop P dest turns zeroBlocks w).2 := by
  induction turns generalizing zeroBlocks w with
  | zero => exact makes_refl w
  | succ turns ih =>
    have hcalls := readAll_calls P tarBlock tarBlock w
    unfold extractLoop readExact
    split
    · rename_i w1 hw1
      rw [hw1] at hcalls
      exact makes_of_calls hcalls
    rename_i block w1 hw1
    rw [hw1] at hcalls
    have hread : Makes (fun _ => Contained dest) w w1 := makes_of_calls hcalls
    split_ifs
    · exact hread
    · exact hread.trans (ih _ w1)
    · have hentry := hread.trans (extractEntry_makes P dest block w1)
      split
      · rename_i w2 hw2
        rwa [hw2] at hentry
      · rename_i w2 hw2
        rw [hw2] at hentry
        exact hentry.trans (ih _ w2)

/-- Each turn takes a block at least, so the archive is at its end before the turns are. -/
theorem extractLoop_finishes (dest : Path) {turns : ℕ} (zeroBlocks : ℕ) {w : ExtractWorld β} (h : w.state.length < turns) :
    (extractLoop P dest turns zeroBlocks w).1 ≠ .unfinished := by
  induction turns generalizing zeroBlocks w with
  | zero => exact absurd h (Nat.not_lt_zero _)
  | succ turns ih =>
    unfold extractLoop readExact
    split
    · simp
    rename_i block w1 hblock
    obtain ⟨hstate,hlen⟩ := readAll_some P hblock
    have hless : w1.state.length < turns := by
      rw [hstate, List.length_append, hlen] at h
      unfold tarBlock at h
      omega
    split_ifs
    · simp
    · exact ih _ hless
    · split
      · simp
      · rename_i w2 hentry
        obtain ⟨n,-,bytes,-,htaken⟩ := extractEntry_takes P hentry
        rw [htaken, List.length_append] at hless
        exact ih _ (by omega)

theorem zeroBlock_eq {block : List UInt8} (hzero : block.all (· == 0) = true) (hlen : block.length = tarBlock) :
    block = List.replicate tarBlock 0 := by
  rw [List.eq_replicate_iff]
  refine ⟨hlen,fun b hb => ?_⟩
  simpa using List.all_eq_true.mp hzero b hb

/-- Success after so many blocks of zeros means that two of them end what was read. -/
theorem extractLoop_success {dest : Path} {turns zeroBlocks : ℕ} {w w' : ExtractWorld β} (hzeros : zeroBlocks < 2)
    (h : extractLoop P dest turns zeroBlocks w = (.success,w')) :
    ∃ before, tarBlock ∣ before.length ∧
      List.replicate (tarBlock * zeroBlocks) 0 ++ w.state = before ++ List.replicate (tarBlock * 2) 0 ++ w'.state := by
  induction turns generalizing zeroBlocks w with
  | zero => cases h
  | succ turns ih =>
    unfold extractLoop readExact at h
    split at h
    · cases h
    rename_i block w1 hblock
    obtain ⟨hstate,hlen⟩ := readAll_some P hblock
    split_ifs at h with hzero htwo
    · cases h
      have hone : zeroBlocks = 1 := by omega
      refine ⟨[],Nat.dvd_zero _,?_⟩
      rw [hstate, zeroBlock_eq hzero hlen, ← List.append_assoc, ← List.replicate_add, hone, List.nil_append, Nat.mul_one, Nat.mul_two]
    · have hnone : zeroBlocks = 0 := by omega
      obtain ⟨before,hdvd,hends⟩ := ih (by omega) h
      refine ⟨before,hdvd,?_⟩
      rw [← hends, hnone, hstate, zeroBlock_eq hzero hlen]
      rfl
    · split at h
      · cases h
      rename_i w2 hentry
      obtain ⟨n,hn,bytes,hbytes,htaken⟩ := extractEntry_takes P hentry
      obtain ⟨before,hdvd,hends⟩ := ih (by omega) h
      refine ⟨List.replicate (tarBlock * zeroBlocks) 0 ++ (block ++ (bytes ++ before)),?_,?_⟩
      · simp only [List.length_append, List.length_replicate, hlen, hbytes]
        exact Nat.dvd_add (Nat.dvd_mul_right _ _) (Nat.dvd_add (Nat.dvd_refl _) (Nat.dvd_add hn hdvd))
      · rw [Nat.mul_zero, List.replicate_zero, List.nil_append] at hends
        rw [hstate, htaken, hends]
        simp only [List.append_assoc]

theorem tarExtractIntoDir_makes (dest : Path) (w : ExtractWorld β) :
    Makes (fun _ => Contained dest) w (tarExtractIntoDir P dest w).2 := by
  have hdest : Makes (fun _ => Contained dest) w (mkdirP P dest w).2 := by
    refine (mkdirP_makes P dest w).mono ?_
    intro _ c h
    cases c with
    | mkdir p =>
      refine Or.inl ?_
      rcases h with rfl | hpre
      · exact List.take_prefix _ _
      · exact (List.prefix_append _ _).trans (hpre.trans (List.take_prefix _ _))
    | _ => exact h.elim
  unfold tarExtractIntoDir
  split
  · rename_i w1 hw1
    rwa [hw1] at hdest
  · rename_i w1 hw1
    rw [hw1] at hdest
    exact hdest.trans (extractLoop_makes P dest _ _ w1)

/-- Whatever the archive is and whatever FatFs answers, only what is under the destination
is opened, written or made, but for the directories of the destination's own path. The
extraction ends, and with success only behind two blocks of zeros. -/
theorem tar_extract_contained (dest : Path) (input : List UInt8) (env : β) :
    (∀ made ∈ (tarExtractIntoDir P dest ⟨input,env,[]⟩).2.calls, Contained dest made.2) ∧
      (tarExtractIntoDir P dest ⟨input,env,[]⟩).1 ≠ .unfinished ∧
      ((tarExtractIntoDir P dest ⟨input,env,[]⟩).1 = .success →
        ∃ before, tarBlock ∣ before.length ∧
          input = before ++ List.replicate (tarBlock * 2) 0 ++ (tarExtractIntoDir P dest ⟨input,env,[]⟩).2.state) := by
  refine ⟨(tarExtractIntoDir_makes P dest _).all (by simp),?_,?_⟩
  · unfold tarExtractIntoDir
    split
    · simp
    · exact extractLoop_finishes P dest 0 (Nat.lt_succ_self _)
  · intro h
    have hstate := mkdirP_state P dest ⟨input,env,[]⟩
    unfold tarExtractIntoDir at h ⊢
    split at h
    · cases h
    rename_i w1 hw1
    rw [hw1] at hstate
    obtain ⟨before,hdvd,hends⟩ := extractLoop_success P (by decide) (Prod.ext_iff.mpr ⟨h,rfl⟩)
    refine ⟨before,hdvd,?_⟩
    rw [Nat.mul_zero, List.replicate_zero, List.nil_append] at hends
    rw [← hends, hstate]

end

/-- A callback and a FatFs without failures. -/
def willing : ExtractOutside Unit where
  chunk _ wanted := (wanted,())
  mkdir _ _ := (.ok (),())
  openWrite _ _ := (.ok (),())
  write _ _ data := (.ok data.length,())
  close _ _ := ()

/-- An archive of one empty file, `a`. -/
def emptyFileArchive : List UInt8 := 97 :: List.replicate 1535 0

/-- In the root of a drive, `0:/`, the file is `0:/a`: nothing comes between the two. -/
theorem tar_extract_at_root_not_joined :
    ¬ ∀ made ∈ (tarExtractIntoDir willing [48,colon,slash] ⟨emptyFileArchive,(),[]⟩).2.calls,
      ∀ path, made.2 = .openWrite path → ∃ rel, Relative rel ∧ path = [48,colon,slash] ++ slash :: rel := by
  intro h
  have hcalls : ((tarExtractIntoDir willing [48,colon,slash] ⟨emptyFileArchive,(),[]⟩).2.calls.map Prod.snd)[0]? =
      some (.openWrite [48,colon,slash,97]) := by decide +kernel
  obtain ⟨made,hmem,hmade⟩ := List.mem_map.mp (List.mem_of_getElem? hcalls)
  obtain ⟨rel,-,hjoined⟩ := h made hmem _ hmade
  simp [slash] at hjoined

end Bvstk.Fat
