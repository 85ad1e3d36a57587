import Bvstk.Console.FsShell
import Mathlib.Data.List.TakeWhile

/-! # Does a path argument mean what the shell makes of it?

The path that an argument names is given by the names of the whole text, from the root of a
device, the root of the session or its directory. The shell finds it as long as none of its
buffers cuts the text and its table has room for all the names that are open.
-/
namespace Bvstk.Console.FsShell
open Config PathNames

/-! ## The path that is meant -/

/-- A place: a drive, if there is one, and the names from its root. -/
structure Place where
  drive : Option UInt8
  names : List Path

def Place.path (p : Place) : Path :=
  match p.drive with
  | some c => c :: colon :: slash :: join slash p.names
  | none => slash :: join slash p.names

/-- The drive of an absolute path, and the text behind it. -/
def absolute : Path → Option (Option UInt8 × Path)
  | [] => none
  | c :: p => if c = slash then some (none,p) else if p.head? = some colon then some (some c,p.drop 1) else none

/-- The place of an absolute path. -/
def place (text : Path) : Option Place :=
  (absolute text).map fun a => ⟨a.1,resolve dots (components slash a.2)⟩

/-- The device that an argument names, with the rest of the argument. -/
def namedDevice (devices : List FsDevice) (arg : Path) : Option (FsDevice × Path) :=
  deviceBeforeColon devices arg <|> deviceFirst devices arg <|> deviceOfDrive devices arg

/-- The text of the path that is meant: behind the root of the device, the root, or the directory of the session. -/
def meantText (devices : List FsDevice) (s : Session) (arg : Path) : Path :=
  match namedDevice devices arg with
  | some (d,rest) => d.root ++ [slash] ++ rest
  | none =>
    if arg = [] then s.base
    else if arg.head? = some slash then s.root ++ [slash] ++ arg
    else if colon ∈ arg then arg
    else s.base ++ [slash] ++ arg

/-- The path that an argument denotes. -/
def denoted (devices : List FsDevice) (s : Session) (arg : Path) : Option Path := (place (meantText devices s arg)).map (·.path)

/-- The argument is refused or resolved to the path it denotes. -/
def Exact (devices : List FsDevice) (s : Session) (arg : Path) : Prop :=
  ∀ out, buildPath devices s arg consolePathMax = some out → denoted devices s arg = some out

/-! ## Cutting a text into names -/

theorem segmentLoop_eq (segments : List Path) {name : Path} (hname : slash ∉ name) (p : Path) :
    segmentLoop segments name p = (components slash (name ++ p)).foldl (enter dots segmentsMax) segments := by
  induction p generalizing segments name with
  | nil =>
    rw [segmentLoop, List.append_nil, components_single hname]
    exact Eq.refl _
  | cons c p ih =>
    rw [segmentLoop]
    split
    · rename_i hc
      rw [ih _ List.not_mem_nil, hc, components_append, components_single hname]
      exact Eq.refl _
    · rename_i hc
      have hmore : slash ∉ name ++ [c] := by
        rw [List.mem_append, List.mem_singleton, not_or]
        exact ⟨hname,Ne.symm hc⟩
      rw [ih _ hmore, List.append_assoc, List.singleton_append]

theorem enter_nil : enter dots segmentsMax [] [] = [] := if_pos (Or.inl rfl)

/-- A slash at the start does not matter. -/
theorem segmentLoop_skipSlash (p : Path) : segmentLoop [] [] (skipSlash p) = segmentLoop [] [] p := by
  unfold skipSlash
  split
  · rename_i hslash
    obtain ⟨rest,rfl⟩ := List.head?_eq_some_iff.mp hslash
    rw [segmentLoop, if_pos rfl, enter_nil]
    exact Eq.refl _
  · exact Eq.refl _

/-- The names of a text that the table keeps. -/
def keptNames (p : Path) : List Path := (components slash p).foldl (enter dots segmentsMax) []

theorem segmentLoop_kept (p : Path) : segmentLoop [] [] p = keptNames p := segmentLoop_eq [] List.not_mem_nil p

theorem writeLoop_eq {outSize : ℕ} {names : List Path} (hne : names ≠ []) (out : Path) :
    writeLoop outSize out names =
      if outSize ≤ (out ++ join slash names).length + 2 then none else some (out ++ join slash names) := by
  induction names generalizing out with
  | nil => exact absurd rfl hne
  | cons name names ih =>
    cases names with
    | nil =>
      rw [writeLoop, writeLoop, join, List.length_append]
      split
      · exact Eq.refl _
      · rename_i hroom
        exact if_pos (by omega)
    | cons next names =>
      have hassoc : out ++ name ++ [slash] ++ join slash (next :: names) = out ++ join slash (name :: next :: names) := by
        simp only [join, List.append_assoc, List.singleton_append]
      rw [writeLoop, ih (List.cons_ne_nil _ _), hassoc]
      · split
        · rename_i hfull
          refine (if_pos ?_).symm
          rw [← hassoc, List.length_append, List.length_append, List.length_append]
          omega
        · exact Eq.refl _
      · exact List.cons_ne_nil _ _

/-- Writing a place: refused when its path is as long as the buffer, but for three characters. -/
theorem writeLoop_place {drive : Option UInt8} {names : List Path} {root : Path} (hroot : (⟨drive,[]⟩ : Place).path = root) :
    writeLoop consolePathMax root names =
      if consolePathMax ≤ (⟨drive,names⟩ : Place).path.length + 2 then none else some (⟨drive,names⟩ : Place).path := by
  subst hroot
  have hpath : (⟨drive,[]⟩ : Place).path ++ join slash names = (⟨drive,names⟩ : Place).path := by
    cases drive <;> exact Eq.refl _
  by_cases hne : names = []
  · subst hne
    cases drive <;> exact Eq.refl _
  · rw [writeLoop_eq hne, hpath]

/-- The normalized path of a text of which nothing is cut off. -/
theorem normalizePath_eq {text : Path} (hshort : text.length < consolePathMax * 2)
    (hdrive : text[1]? = some colon → text.head? ≠ some slash) :
    normalizePath text consolePathMax = (absolute text).bind fun a =>
      if consolePathMax ≤ (⟨a.1,keptNames a.2⟩ : Place).path.length + 2 then none
      else some (⟨a.1,keptNames a.2⟩ : Place).path := by
  have hfits : text.length ≤ consolePathMax * 2 - 1 := Nat.le_pred_of_lt hshort
  unfold normalizePath
  rw [List.take_of_length_le hfits]
  cases text with
  | nil => exact Eq.refl _
  | cons c p =>
    dsimp only
    split
    · rename_i hcolon
      have hne : c ≠ slash := by
        intro hc
        refine hdrive ?_ (congrArg some hc)
        rw [← hcolon]
        exact List.head?_eq_getElem?.symm
      rw [absolute, if_neg hne, if_pos hcolon, segmentLoop_skipSlash, segmentLoop_kept]
      exact writeLoop_place rfl
    split
    · rename_i hc
      rw [absolute, if_pos hc, segmentLoop_kept]
      exact writeLoop_place rfl
    · rename_i hcolon hc
      rw [absolute, if_neg hc, if_neg hcolon]
      exact Eq.refl _

/-- Names kept make the path that the text denotes exactly when none was left out since the root. -/
theorem keptNames_path_iff (drive : Option UInt8) (p : Path) :
    (⟨drive,resolve dots (components slash p)⟩ : Place).path = (⟨drive,keptNames p⟩ : Place).path ↔
      Roomy dots segmentsMax (components slash p) := by
  rw [← foldl_enter_iff]
  constructor
  · intro hpath
    have hkept : ∀ name ∈ keptNames p, IsName slash name := isName_foldl mem_enter p
    have hopen : ∀ name ∈ resolve dots (components slash p), IsName slash name := isName_foldl mem_resolveStep p
    apply join_injective hkept hopen
    cases drive with
    | none => exact (List.cons.inj hpath).2.symm
    | some c =>
      have htail := (List.cons.inj (List.cons.inj (List.cons.inj hpath).2).2).2
      exact htail.symm
  · intro hnames
    rw [keptNames, hnames]

/-! ## Putting the text together -/

theorem absolute_append {base : Path} (hbase : base ≠ []) (text : Path) :
    absolute (base ++ slash :: text) = (absolute base).map fun a => (a.1,a.2 ++ slash :: text) := by
  obtain ⟨c,p,rfl⟩ := List.exists_cons_of_ne_nil hbase
  rw [List.cons_append, absolute, absolute]
  split
  · exact Eq.refl _
  cases p with
  | nil =>
    have hslash : ¬([] ++ slash :: text).head? = some colon := fun h => absurd (Option.some.inj h) (by decide)
    rw [if_neg hslash, if_neg nofun]
    exact Eq.refl _
  | cons d p =>
    rw [List.cons_append, List.head?_cons, List.head?_cons]
    split
    · exact Eq.refl _
    · exact Eq.refl _

/-- Behind a slash, further ones change nothing. -/
theorem place_slashes (base : Path) {slashes : Path} (h : ∀ c ∈ slashes, c = slash) (text : Path) :
    place (base ++ slash :: (slashes ++ text)) = place (base ++ slash :: text) := by
  by_cases hbase : base = []
  · subst hbase
    simp only [place, absolute, List.nil_append, resolve, if_true, Option.map_some, foldl_separators _ h]
  unfold place
  rw [absolute_append hbase, absolute_append hbase, Option.map_map, Option.map_map]
  congr 1
  funext a
  simp only [Function.comp_apply, resolve, components_append, List.foldl_append, foldl_separators _ h]

/-- A directory is where nothing follows it. -/
theorem place_here {base : Path} (hbase : base ≠ []) {text : Path}
    (htext : ∀ names, (components slash text).foldl (resolveStep dots) names = names) :
    place (base ++ slash :: text) = place base := by
  unfold place
  rw [absolute_append hbase, Option.map_map]
  congr 1
  funext a
  simp only [Function.comp_apply, resolve, components_append, List.foldl_append, htext]

theorem root_eq (s : Session) : ∃ front, s.root = front ++ [slash] := by
  unfold Session.root
  cases s.drive with
  | none => exact ⟨[],rfl⟩
  | some drive => exact ⟨[drive,colon],rfl⟩

theorem base_ne_nil (s : Session) : s.base ≠ [] := by
  unfold Session.base
  split
  · obtain ⟨front,hroot⟩ := root_eq s
    rw [hroot]
    exact List.append_ne_nil_of_right_ne_nil front (List.cons_ne_nil _ _)
  · assumption

/-! ## Finding the device -/

theorem sameIgnoringCase_lower {a b : Path} (h : sameIgnoringCase a b = true) : a.map toLower = b.map toLower := by
  rw [sameIgnoringCase, beq_iff_eq] at h
  exact h

theorem sameIgnoringCase_length {a b : Path} (h : sameIgnoringCase a b = true) : a.length = b.length := by
  have hmap := congrArg List.length (sameIgnoringCase_lower h)
  rwa [List.length_map, List.length_map] at hmap

theorem toLower_slash {c : UInt8} (h : toLower c = slash) : c = slash := by
  unfold toLower slash at *
  split at h
  · rename_i hupper
    have hc : c = slash - 32 := UInt8.eq_sub_iff_add_eq.mpr h
    rw [hc] at hupper
    exact absurd hupper (by decide)
  · exact h

/-- A name of a device is short and has no slash in it. -/
theorem fsDeviceByName_some {devices : List FsDevice} {name : Path} {d : FsDevice} (h : fsDeviceByName devices name = some d) :
    name ≠ [] ∧ name.length < fsNameMax ∧ slash ∉ name := by
  have hsame : sameIgnoringCase name d.name = true := List.find?_some (p := fun d : FsDevice => sameIgnoringCase name d.name) h
  have hlength := sameIgnoringCase_length hsame
  refine ⟨?_,hlength ▸ d.short,?_⟩
  · intro hnil
    rw [hnil] at hlength
    exact d.nonempty (List.length_eq_zero_iff.mp hlength.symm)
  · intro hmem
    have hlower : slash ∈ d.name.map toLower := by
      rw [← sameIgnoringCase_lower hsame]
      exact List.mem_map.mpr ⟨slash,hmem,rfl⟩
    obtain ⟨c,hc,hcase⟩ := List.mem_map.mp hlower
    exact d.plain (toLower_slash hcase ▸ hc)

/-- An argument that is a device's name has that name as its first. -/
theorem deviceExact_none {devices : List FsDevice} {arg : Path} (h : deviceFirst devices arg = none) :
    deviceExact devices arg = none := by
  unfold deviceExact
  rw [Option.map_eq_none_iff]
  by_contra hfound
  obtain ⟨d,hd⟩ := Option.ne_none_iff_exists'.mp hfound
  obtain ⟨hne,hshort,hplain⟩ := fsDeviceByName_some hd
  have hwhole : arg.takeWhile (· ≠ slash) = arg := by
    rw [List.takeWhile_eq_self_iff]
    intro c hc
    exact decide_eq_true fun heq => hplain (heq ▸ hc)
  unfold deviceFirst at h
  dsimp only at h
  rw [hwhole, if_neg, hd] at h
  · cases h
  · rw [not_or]
    exact ⟨hne,Nat.not_le_of_lt hshort⟩

/-- A colon so late that no device's name is before it; then the argument is not looked at any further. -/
def LateColon (arg : Path) : Prop := colon ∈ arg ∧ arg.head? ≠ some colon ∧ fsNameMax ≤ (arg.takeWhile (· ≠ colon)).length

/-- The device's path that an argument is translated to is that of the device it names. -/
theorem translateDevicePath_eq {devices : List FsDevice} {arg : Path} {outSize : ℕ} (hcolon : ¬LateColon arg)
    (hfits : ∀ d rest, namedDevice devices arg = some (d,rest) → d.root.length + (rest.dropWhile (· = slash)).length < outSize) :
    translateDevicePath devices arg outSize =
      (namedDevice devices arg).map fun a => a.1.root ++ a.2.dropWhile (· = slash) := by
  have hexact : (deviceBeforeColon devices arg <|> deviceFirst devices arg <|> deviceExact devices arg <|>
      deviceOfDrive devices arg) = namedDevice devices arg := by
    unfold namedDevice
    congr 1
    cases hfirst : deviceFirst devices arg with
    | some a => exact Eq.refl _
    | none =>
      rw [deviceExact_none hfirst]
      exact Eq.refl _
  have hlate : ¬(colon ∈ arg ∧ arg.head? ≠ some colon ∧ fsNameMax ≤ (arg.takeWhile (· ≠ colon)).length) := hcolon
  unfold translateDevicePath
  rw [if_neg hlate, hexact]
  cases hnamed : namedDevice devices arg with
  | none => exact Eq.refl _
  | some a =>
    obtain ⟨d,rest⟩ := a
    dsimp only
    split
    · rename_i hempty
      rw [Option.map_some, hempty, List.append_nil]
    · rw [if_neg (Nat.not_le_of_lt (hfits d rest hnamed))]
      exact Eq.refl _

theorem translateDevicePath_late {devices : List FsDevice} {arg : Path} {outSize : ℕ} (hcolon : LateColon arg) :
    translateDevicePath devices arg outSize = none := if_pos hcolon

/-- Behind a slash at the start there is no device, unless a colon follows it at once. -/
theorem namedDevice_absolute {devices : List FsDevice} {arg : Path} (hcolon : LateColon arg) (hslash : arg.head? = some slash) :
    namedDevice devices arg = none := by
  obtain ⟨rest,rfl⟩ := List.head?_eq_some_iff.mp hslash
  have hbefore : deviceBeforeColon devices (slash :: rest) = none := by
    unfold deviceBeforeColon
    split
    · rw [Option.map_eq_none_iff]
      by_contra hfound
      obtain ⟨d,hd⟩ := Option.ne_none_iff_exists'.mp hfound
      exact absurd hcolon.2.2 (Nat.not_le_of_lt (fsDeviceByName_some hd).2.1)
    · exact Eq.refl _
  have hdrive : deviceOfDrive devices (slash :: rest) = none := by
    refine if_neg ?_
    rintro ⟨⟨c,hc,hdigit⟩,-⟩
    cases hc
    exact absurd hdigit (by decide)
  unfold namedDevice
  rw [hbefore, hdrive]
  exact Eq.refl _

/-! ## The text that the shell cuts into names -/

/-- The text put together for an argument, before the buffer cuts it. -/
def givenText (devices : List FsDevice) (s : Session) (arg : Path) : Path :=
  pathText s ((translateDevicePath devices arg (consolePathMax * 2)).getD arg)

/-- Nothing of the argument is cut off by a buffer, and no slash is taken for a drive. -/
structure Whole (devices : List FsDevice) (s : Session) (arg : Path) : Prop where
  device : ∀ d rest, namedDevice devices arg = some (d,rest) →
    d.root.length + (rest.dropWhile (· = slash)).length < consolePathMax * 2
  text : (givenText devices s arg).length < consolePathMax * 2
  drive : (givenText devices s arg)[1]? = some colon → (givenText devices s arg).head? ≠ some slash

/-- A device's path is taken as it is. -/
theorem pathText_device (s : Session) (d : FsDevice) (rest : Path) : pathText s (d.root ++ rest) = d.root ++ rest := by
  have hcolon : colon ∈ d.root ++ rest := List.mem_append_left rest (List.mem_cons_of_mem _ List.mem_cons_self)
  have hroot : d.root ++ rest = d.drive :: colon :: slash :: rest := rfl
  have hslash : ¬(d.root ++ rest).head? = some slash := fun h => d.driveNotSlash (Option.some.inj h)
  unfold pathText
  rw [if_neg, if_neg, if_neg hslash, if_pos hcolon]
  · intro h
    rw [h] at hslash
    exact hslash rfl
  · rw [hroot, not_or]
    exact ⟨List.cons_ne_nil _ _,fun h => List.cons_ne_nil _ _ (List.cons.inj h).2⟩

/-- The place of a text that no device is named in is the one that is meant. -/
theorem place_pathText {devices : List FsDevice} {s : Session} {arg : Path} (hnamed : namedDevice devices arg = none) :
    place (pathText s arg) = place (meantText devices s arg) := by
  have hmeant : meantText devices s arg = if arg = [] then s.base else if arg.head? = some slash then s.root ++ [slash] ++ arg
      else if colon ∈ arg then arg else s.base ++ [slash] ++ arg := by
    unfold meantText
    rw [hnamed]
  rw [hmeant]
  unfold pathText
  by_cases hempty : arg = []
  · rw [if_pos (Or.inl hempty), if_pos hempty]
  rw [if_neg hempty]
  by_cases hdot : arg = [dot]
  · subst hdot
    rw [if_pos (Or.inr rfl), if_neg (by decide), if_neg (by decide), List.append_assoc, List.singleton_append]
    exact (place_here (base_ne_nil s) fun names => rfl).symm
  rw [if_neg (not_or.mpr ⟨hempty,hdot⟩)]
  obtain ⟨front,hroot⟩ := root_eq s
  by_cases hslash : arg.head? = some slash
  · obtain ⟨rest,rfl⟩ := List.head?_eq_some_iff.mp hslash
    rw [if_pos hslash, if_pos hslash]
    have hwhole : s.root ++ [slash] ++ slash :: rest = front ++ slash :: ([slash,slash] ++ rest) := by
      rw [hroot, List.append_assoc, List.append_assoc]
      exact Eq.refl _
    have hplace : place (s.root ++ [slash] ++ slash :: rest) = place (s.root ++ rest) := by
      rw [hwhole, place_slashes front (by simp), hroot, List.append_assoc, List.singleton_append]
    rw [hplace]
    split
    · rename_i hsingle
      rw [(List.cons.inj hsingle).2, List.append_nil]
    · exact Eq.refl _
  rw [if_neg hslash, if_neg hslash, if_neg]
  · by_cases hcolon : colon ∈ arg
    · rw [if_pos hcolon, if_pos hcolon]
    rw [if_neg hcolon, if_neg hcolon]
    split
    · rename_i hlast
      obtain ⟨front,hbase⟩ := List.getLast?_eq_some_iff.mp hlast
      have hdouble : place (front ++ slash :: ([slash] ++ arg)) = place (front ++ slash :: arg) :=
        place_slashes front (by simp) arg
      rw [hbase, List.append_assoc, List.append_assoc, List.append_assoc]
      exact hdouble.symm
    · exact Eq.refl _
  · intro hsingle
    rw [hsingle] at hslash
    exact hslash rfl

/-- With nothing cut off, a text that is cut into names at all is at the place that is meant. -/
theorem place_givenText {devices : List FsDevice} {s : Session} {arg : Path} (h : Whole devices s arg) :
    absolute (givenText devices s arg) = none ∨ place (givenText devices s arg) = place (meantText devices s arg) := by
  by_cases hcolon : LateColon arg
  · have hgiven : givenText devices s arg = pathText s arg := by
      rw [givenText, translateDevicePath_late hcolon]
      exact Eq.refl _
    rw [hgiven]
    by_cases hslash : arg.head? = some slash
    · exact Or.inr (place_pathText (namedDevice_absolute hcolon hslash))
    · refine Or.inl ?_
      obtain ⟨hmem,hhead,hlate⟩ := hcolon
      cases arg with
      | nil => cases hmem
      | cons c arg =>
        have htext : pathText s (c :: arg) = c :: arg := by
          unfold pathText
          rw [if_neg, if_neg, if_neg hslash, if_pos hmem]
          · intro hsingle
            rw [hsingle] at hslash
            exact hslash rfl
          · rintro (hnil | hsingle)
            · cases hnil
            · rw [hsingle] at hmem
              exact absurd hmem (by decide)
        have hc : ¬c = slash := fun heq => hslash (congrArg some heq)
        have hdrive : ¬arg.head? = some colon := by
          intro hdrive
          obtain ⟨rest,rfl⟩ := List.head?_eq_some_iff.mp hdrive
          rw [List.takeWhile_cons, List.takeWhile_cons_of_neg (by decide)] at hlate
          have hlength : (if decide (c ≠ colon) then [c] else []).length < fsNameMax := by
            split
            · exact Nat.one_lt_two.trans (by decide)
            · exact Nat.zero_lt_succ _
          exact absurd hlate (Nat.not_le_of_lt hlength)
        rw [htext, absolute, if_neg hc, if_neg hdrive]
  · have htranslate := translateDevicePath_eq hcolon h.device
    refine Or.inr ?_
    unfold givenText
    rw [htranslate]
    cases hnamed : namedDevice devices arg with
    | none => exact place_pathText hnamed
    | some a =>
      obtain ⟨d,rest⟩ := a
      have hroot (text : Path) : d.root ++ text = [d.drive,colon] ++ slash :: text := rfl
      have hmeant : meantText devices s arg = [d.drive,colon] ++ slash ::
          ((slash :: rest.takeWhile (· = slash)) ++ rest.dropWhile (· = slash)) := by
        have hslashes : (slash :: rest.takeWhile (· = slash)) ++ rest.dropWhile (· = slash) = slash :: rest := by
          rw [List.cons_append, List.takeWhile_append_dropWhile]
        rw [hslashes]
        unfold meantText
        rw [hnamed]
        exact List.append_assoc _ _ _
      rw [hmeant, place_slashes]
      · exact congrArg place (pathText_device s d _)
      · intro c hc
        rcases List.mem_cons.mp hc with rfl | hc
        · exact Eq.refl _
        · exact of_decide_eq_true (List.mem_takeWhile_imp (p := fun c : UInt8 => decide (c = slash)) hc)

/-! ## When a path is exact -/

/-- Of the names of a text, none is left out since the root, or the path is refused for its length. -/
def Kept (text : Path) : Prop :=
  ∀ a, absolute text = some a →
    Roomy dots segmentsMax (components slash a.2) ∨ consolePathMax ≤ (⟨a.1,keptNames a.2⟩ : Place).path.length + 2

theorem buildPath_whole {devices : List FsDevice} {s : Session} {arg : Path} (h : Whole devices s arg) :
    buildPath devices s arg consolePathMax = (absolute (givenText devices s arg)).bind fun a =>
      if consolePathMax ≤ (⟨a.1,keptNames a.2⟩ : Place).path.length + 2 then none
      else some (⟨a.1,keptNames a.2⟩ : Place).path := by
  have hfits : (givenText devices s arg).length ≤ consolePathMax * 2 - 1 := Nat.le_pred_of_lt h.text
  have hcut : (givenText devices s arg).take (consolePathMax * 2 - 1) = givenText devices s arg := List.take_of_length_le hfits
  unfold buildPath
  dsimp only
  rw [← givenText, hcut]
  exact normalizePath_eq h.text h.drive

/-- With nothing cut off, the path is the one that the argument denotes exactly when the table has room for the
names since the root, or the path is refused for its length. -/
theorem buildPath_exact_iff {devices : List FsDevice} {s : Session} {arg : Path} (h : Whole devices s arg) :
    Exact devices s arg ↔ Kept (givenText devices s arg) := by
  unfold Exact Kept denoted
  rw [buildPath_whole h]
  cases habsolute : absolute (givenText devices s arg) with
  | none =>
    constructor
    · intro _ a ha
      cases ha
    · intro _ out hout
      cases hout
  | some a =>
    have hplace : place (meantText devices s arg) = some ⟨a.1,resolve dots (components slash a.2)⟩ := by
      rcases place_givenText h with hnone | hplace
      · rw [habsolute] at hnone
        cases hnone
      · rw [← hplace, place, habsolute, Option.map_some]
    rw [hplace, Option.map_some, Option.bind_some]
    constructor
    · rintro hexact a' ha'
      cases ha'
      by_cases hlong : consolePathMax ≤ (⟨a.1,keptNames a.2⟩ : Place).path.length + 2
      · exact Or.inr hlong
      · exact Or.inl ((keptNames_path_iff a.1 a.2).mp (Option.some.inj (hexact _ (if_neg hlong))))
    · intro hkept out hout
      split at hout
      · cases hout
      · rename_i hlong
        rw [← hout, (keptNames_path_iff a.1 a.2).mpr ((hkept a rfl).resolve_right hlong)]

/-- A session in the root directory of the first drive. -/
def sampleSession : Session where
  drive := some 48
  cwd := [48,colon,slash]
  driveNotSlash := by decide
  cwdShort := by decide

def sampleDevice : FsDevice where
  name := [115,100]
  drive := 49
  nonempty := by decide
  short := by decide
  plain := by decide
  driveNotSlash := by decide

/-- `SD/x/../y`. -/
def sampleArg : Path := [83,68,slash,120,slash,dot,dot,slash,121]

theorem sampleArg_whole : Whole [sampleDevice] sampleSession sampleArg where
  device d rest h := by
    have hnamed : namedDevice [sampleDevice] sampleArg = some (sampleDevice,[slash,120,slash,dot,dot,slash,121]) := rfl
    rw [hnamed] at h
    cases h
    decide
  text := by decide
  drive := by decide

theorem buildPath_exact_iff_sample : Exact [sampleDevice] sampleSession sampleArg ↔ Kept (givenText [sampleDevice] sampleSession sampleArg) :=
  buildPath_exact_iff sampleArg_whole

/-- A directory 33 names deep is taken for the one that it is in. -/
theorem deepArg_not_exact : ¬∀ devices s arg, Exact devices s arg := by
  intro h
  have hparent : buildPath [] sampleSession (join slash (List.replicate 33 [97])) consolePathMax =
      some (48 :: colon :: slash :: join slash (List.replicate 32 [97])) := by decide +kernel
  have hdenoted := h [] sampleSession _ _ hparent
  exact absurd hdenoted (by decide +kernel)

end Bvstk.Console.FsShell
