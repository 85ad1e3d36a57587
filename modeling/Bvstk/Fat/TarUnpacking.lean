import Bvstk.Fat.TarContainment
import Bvstk.Fat.TarStream
import Bvstk.Fs.TarArchive

/-! # What the writer wrote, read

`tar_extract_into_dir_fatfs` on the part of an archive that `tar_stream_dir_fatfs` writes for one
object: its header is read back, and on a volume with room left the object is put in its place,
unless the reader refuses the name.
-/
namespace Bvstk.Fat
open Bvstk.Fs Bvstk.Config NamedTree

/-! ## Reading a header -/

theorem tarSetOctal_length {width : ℕ} (h : 0 < width) (v : ℕ) : (tarSetOctal width v).length = width := by
  unfold tarSetOctal
  split
  · rw [List.length_append, List.length_replicate, List.length_singleton]
    omega
  · rw [List.length_append, octal_length, List.length_singleton]
    omega

theorem tarSetOctal_small {v : ℕ} (h : v < 8^11) : tarSetOctal 12 v = octal 11 v ++ [0] := if_neg (by omega)

/-- The fields of a header behind the name. -/
theorem fatTarFields_eq (name : Path) (type : UInt8) (size mtime : ℕ) (sum : List UInt8) :
    fatTarFields name type size mtime sum = field 100 name ++
      ((field 8 (tarMode type) ++ tarSetOctal 8 0 ++ tarSetOctal 8 0) ++ (tarSetOctal 12 size ++
        ((tarSetOctal 12 mtime ++ sum) ++ ([type] ++ (zeros 100 ++ field 255 tarMagic))))) := by
  simp only [fatTarFields, List.append_assoc]

/-- A header with some checksum in it. -/
structure HeaderOf (name : Path) (type : UInt8) (size : ℕ) (block : List UInt8) : Prop where
  length : block.length = tarBlock
  named : relativeName block = name
  sized : tarParseOctal ((block.drop 124).take 12) = some size
  typed : block[156]? = some type

theorem cString_filled {name : Name} (h : ∀ c ∈ name, c ≠ 0) (n : ℕ) : cString (name ++ zeros n) = name := by
  have hname : ∀ c ∈ name, (c != 0) = true := fun c hc => bne_iff_ne.mpr (h c hc)
  have hzeros : (zeros n).takeWhile (· != 0) = [] := by
    cases n with
    | zero => rfl
    | succ n => rfl
  rw [cString, List.takeWhile_append_of_pos hname, hzeros, List.append_nil]

theorem isDigit_octal {b : UInt8} (h : Ustar.isDigit 8 b = true) : ¬(b = 0 ∨ b = 32) ∧ ¬(b < 48 ∨ 55 < b) := by
  rw [Ustar.isDigit, decide_eq_true_iff] at h
  constructor
  · rintro (rfl | rfl)
    · exact absurd h.1 (by decide)
    · exact absurd h.1 (by decide)
  · have hlow : (48 : UInt8).toNat = 48 := rfl
    have hhigh : (55 : UInt8).toNat = 55 := rfl
    rw [UInt8.lt_iff_toNat_lt, UInt8.lt_iff_toNat_lt, hlow, hhigh]
    omega

theorem octalDigits_append {digits rest : List UInt8} (h : ∀ b ∈ digits, Ustar.isDigit 8 b = true) (v : ℕ) :
    octalDigits v (digits ++ 0 :: rest) = some (digits.foldl (fun n b => n * 8 + (b.toNat - 48)) v) := by
  induction digits generalizing v with
  | nil => rw [List.nil_append, octalDigits, if_pos (Or.inl rfl), List.foldl_nil]
  | cons b digits ih =>
    obtain ⟨hblank,hdigit⟩ := isDigit_octal (h b List.mem_cons_self)
    rw [List.cons_append, octalDigits, if_neg hblank, if_neg hdigit, List.foldl_cons]
    exact ih (fun d hd => h d (List.mem_cons_of_mem _ hd)) _

theorem tarParseOctal_field {v : ℕ} (h : v < 8^11) : tarParseOctal (tarSetOctal 12 v) = some v := by
  have hdigits := octal_digits 11 v
  have hvalue := octal_value 11 v
  have hlength := octal_length 11 v
  rw [tarSetOctal_small h, tarParseOctal]
  cases hoctal : octal 11 v with
  | nil =>
    rw [hoctal] at hlength
    cases hlength
  | cons b digits =>
    rw [hoctal] at hdigits hvalue
    have hblank := (isDigit_octal (hdigits b List.mem_cons_self)).1
    have hstop : ¬(b == 32 || b == 0) = true := by
      rw [Bool.or_eq_true, beq_iff_eq, beq_iff_eq]
      exact fun hb => hblank hb.symm
    rw [List.cons_append, List.dropWhile_cons_of_neg (p := fun c => c == 32 || c == 0) hstop, ← List.cons_append,
      octalDigits_append hdigits]
    rw [Ustar.digitsValue, Nat.mod_eq_of_lt h] at hvalue
    rw [hvalue]

theorem headerOf_fields {name sum : List UInt8} {type : UInt8} {size mtime : ℕ} (hshort : name.length < 100)
    (htext : ∀ c ∈ name, c ≠ 0) (hsize : size < 8^11) (hsum : sum.length = 8) :
    HeaderOf name type size (fatTarFields name type size mtime sum) := by
  have hname := field_length (show name.length ≤ 100 by omega)
  have hmode : (field 8 (tarMode type)).length = 8 := field_length (by rw [tarMode_length]; omega)
  have howner : (tarSetOctal 8 0).length = 8 := tarSetOctal_length (by decide) 0
  have hsized : (tarSetOctal 12 size).length = 12 := tarSetOctal_length (by decide) size
  have htime : (tarSetOctal 12 mtime).length = 12 := tarSetOctal_length (by decide) mtime
  have hmagic : field 255 tarMagic = (tarMagic ++ zeros 80) ++ (zeros 154 ++ zeros 13) := by
    simp only [field, zeros, List.append_assoc, List.replicate_append_replicate]
    rfl
  constructor
  · rw [fatTarFields_eq, hmagic]
    have hback : tarMagic.length = 8 := rfl
    simp only [List.length_append, List.length_singleton, hname, hmode, howner, hsized, htime, hsum, hback, zeros,
      List.length_replicate, tarBlock]
  · have hfirst : (fatTarFields name type size mtime sum).take 99 = name ++ zeros (99 - name.length) := by
      have hfield : field 100 name = (name ++ zeros (99 - name.length)) ++ [0] := by
        have hzeros : 100 - name.length = 99 - name.length + 1 := by omega
        rw [field, hzeros, zeros, List.replicate_succ', List.append_assoc]
        rfl
      rw [fatTarFields_eq, hfield, List.append_assoc]
      apply List.take_left'
      rw [List.length_append, zeros, List.length_replicate]
      omega
    have hprefix : ((fatTarFields name type size mtime sum).drop 345).take 154 = zeros 154 := by
      have hsplit : fatTarFields name type size mtime sum =
          (field 100 name ++ (field 8 (tarMode type) ++ tarSetOctal 8 0 ++ tarSetOctal 8 0) ++ tarSetOctal 12 size ++
            (tarSetOctal 12 mtime ++ sum) ++ [type] ++ zeros 100 ++ (tarMagic ++ zeros 80)) ++ (zeros 154 ++ zeros 13) := by
        rw [fatTarFields_eq, hmagic]
        simp only [List.append_assoc]
      rw [hsplit]
      apply slice_append
      · simp only [List.length_append, hname, hmode, howner, hsized, htime, hsum, zeros, List.length_replicate]
        rfl
      · exact List.length_replicate ..
    have hnone : cString (zeros 154) = [] := rfl
    unfold relativeName
    dsimp only
    rw [hfirst, hprefix, hnone, if_pos rfl, cString_filled htext, List.take_of_length_le (by omega)]
  · have hsplit := fatTarFields_eq name type size mtime sum
    rw [← List.append_assoc] at hsplit
    have hslice : ((fatTarFields name type size mtime sum).drop 124).take 12 = tarSetOctal 12 size := by
      rw [hsplit]
      apply slice_append
      · simp only [List.length_append, hname, hmode, howner]
      · exact hsized
    rw [hslice, tarParseOctal_field hsize]
  · have hsplit : fatTarFields name type size mtime sum =
        (field 100 name ++ (field 8 (tarMode type) ++ tarSetOctal 8 0 ++ tarSetOctal 8 0) ++ tarSetOctal 12 size ++
          (tarSetOctal 12 mtime ++ sum)) ++ type :: (zeros 100 ++ field 255 tarMagic) := by
      rw [fatTarFields_eq]
      simp only [List.append_assoc, List.singleton_append]
    have hlength : (field 100 name ++ (field 8 (tarMode type) ++ tarSetOctal 8 0 ++ tarSetOctal 8 0) ++ tarSetOctal 12 size ++
        (tarSetOctal 12 mtime ++ sum)).length = 156 := by
      simp only [List.length_append, hname, hmode, howner, hsized, htime, hsum]
    rw [hsplit, ← hlength, List.getElem?_append_right le_rfl, Nat.sub_self]
    rfl

/-- A header is read back. -/
theorem headerOf_fatTarHeader {name : List UInt8} (type : UInt8) {size : ℕ} (mtime : ℕ) (hshort : name.length < 100)
    (htext : ∀ c ∈ name, c ≠ 0) (hsize : size < 8^11) : HeaderOf name type size (fatTarHeader name type size mtime) := by
  apply headerOf_fields hshort htext hsize
  rw [List.length_append, List.length_take, tarSetOctal_length (by decide)]
  rfl

/-! ## The volume -/

/-- The names on a path. -/
def pathNames (p : Path) : List Name := (p.splitOnP isSeparator).filter (· ≠ [])

/-- What is stored on a volume, by folded names. -/
abbrev Volume := Store Name Name (List UInt8)

def volumeKey (fold : Name → Name) (p : Path) : List Name := (pathNames p).map fold

/-- FatFs with room left, and a callback that keeps giving: `node` is what is stored. A
directory that is there is not made anew; what is new needs a directory and a legal name. -/
structure Spacious {β : Type} (fold : Name → Name) (P : ExtractOutside β) (node : β → Volume) : Prop where
  rooted : ∀ e k x, node e (k ++ [x]) ≠ none → IsDir (node e) k
  chunk_gives : ∀ e wanted, 0 < wanted → 0 < (P.chunk e wanted).1
  chunk_node : ∀ e wanted, node (P.chunk e wanted).2 = node e
  mkdir_there : ∀ e p, IsDir (node e) (volumeKey fold p) →
    (P.mkdir e p).1 = .error .exist ∧ node (P.mkdir e p).2 = node e
  mkdir_new : ∀ e p front name, pathNames p = front ++ [name] → LegalName name → IsDir (node e) (front.map fold) →
    node e (volumeKey fold p) = none →
    (P.mkdir e p).1 = .ok () ∧ node (P.mkdir e p).2 = Function.update (node e) (volumeKey fold p) (some ⟨name,none⟩)
  open_new : ∀ e p front name, pathNames p = front ++ [name] → LegalName name → IsDir (node e) (front.map fold) →
    node e (volumeKey fold p) = none → (P.openWrite e p).1 = .ok () ∧
      node (P.openWrite e p).2 = Function.update (node e) (volumeKey fold p) (some ⟨name,some []⟩)
  write_appends : ∀ e p name old data, node e (volumeKey fold p) = some ⟨name,some old⟩ → old.length + data.length < 2^32 →
    (P.write e p data).1 = .ok data.length ∧
      node (P.write e p data).2 = Function.update (node e) (volumeKey fold p) (some ⟨name,some (old ++ data)⟩)
  close_node : ∀ e p, node (P.close e p) = node e

/-! ### Names on a path -/

theorem pathNames_append_slash (p q : Path) : pathNames (p ++ slash :: q) = pathNames p ++ pathNames q := by
  have hslash : isSeparator slash = true := rfl
  simp [pathNames, List.splitOnP_append_cons p q hslash]

theorem pathNames_slash (p : Path) : pathNames (p ++ [slash]) = pathNames p := by
  rw [pathNames_append_slash]
  exact List.append_nil _

theorem pathNames_name {name : Name} (h : LegalName name) : pathNames name = [name] := by
  simp [pathNames, List.splitOnP_eq_singleton h.no_separator, h.1]

/-- A text in front of which names may be put: empty, or with a separator at its end. -/
def Fronts (front : Path) : Prop := front = [] ∨ ∃ p, front = p ++ [slash]

theorem Fronts.names {front : Path} (h : Fronts front) (p : Path) :
    pathNames (front ++ p) = pathNames front ++ pathNames p := by
  rcases h with rfl | ⟨q,rfl⟩
  · rfl
  · rw [pathNames_slash, List.append_assoc]
    exact pathNames_append_slash q p

theorem fronts_asParent (p : Path) : Fronts (asParent p) := by
  unfold asParent
  split
  · rename_i h
    rcases h with rfl | hlast
    · exact .inl rfl
    · obtain ⟨q,hq⟩ := List.getLast?_eq_some_iff.mp hlast
      exact .inr ⟨q,hq⟩
  · exact .inr ⟨p,rfl⟩

theorem Fronts.append {front front' : Path} (h : Fronts front) (h' : Fronts front') : Fronts (front ++ front') := by
  rcases h' with rfl | ⟨q,rfl⟩
  · rwa [List.append_nil]
  · exact .inr ⟨front ++ q,(List.append_assoc _ _ _).symm⟩

theorem fronts_frontText (front : List Name) : Fronts (frontText front) := by
  rcases List.eq_nil_or_concat' front with rfl | ⟨front,name,rfl⟩
  · exact .inl rfl
  · rw [frontText_concat]
    exact .inr ⟨frontText front ++ name,(List.append_assoc _ _ _).symm⟩

theorem pathNames_asParent (p : Path) : pathNames (asParent p) = pathNames p := by
  unfold asParent
  split
  · rfl
  · exact pathNames_slash p

theorem pathNames_frontText {front : List Name} (h : ∀ name ∈ front, LegalName name) :
    pathNames (frontText front) = front := by
  induction front with
  | nil => rfl
  | cons name front ih =>
    have hsplit : frontText (name :: front) = name ++ slash :: frontText front := by simp [frontText]
    rw [hsplit, pathNames_append_slash, pathNames_name (h name List.mem_cons_self),
      ih fun other hother => h other (List.mem_cons_of_mem _ hother)]
    rfl

/-! ### Reading -/

section
variable {β : Type} {fold : Name → Name} {P : ExtractOutside β} {node : β → Volume} (hP : Spacious fold P node)
include hP

/-- As long as there is something left, some of it is given. -/
theorem readCallback_gives {wanted : ℕ} (hwanted : 0 < wanted) {w : ExtractWorld β} (hleft : w.state ≠ []) :
    ∃ bytes w', readCallback P wanted w = (some bytes,w') ∧ node w'.env = node w.env := by
  have hgiven := hP.chunk_gives w.env wanted hwanted
  have hlength := List.length_pos_of_ne_nil hleft
  have hbytes : w.state.take (min (P.chunk w.env wanted).1 wanted) ≠ [] := by
    rw [← List.length_pos_iff, List.length_take]
    omega
  unfold readCallback
  dsimp only
  rw [if_neg hbytes]
  exact ⟨_,_,rfl,hP.chunk_node w.env wanted⟩

theorem readExact_gives {len : ℕ} {w : ExtractWorld β} {bytes rest : List UInt8} (hstate : w.state = bytes ++ rest)
    (hlen : bytes.length = len) :
    ∃ w', readExact P len w = (some bytes,w') ∧ w'.state = rest ∧ node w'.env = node w.env := by
  have hgives : ∀ turns left (w : ExtractWorld β), left ≤ turns → left ≤ w.state.length →
      ∃ given w', readAll P turns left w = (some given,w') ∧ node w'.env = node w.env := by
    intro turns
    induction turns with
    | zero =>
      intro left w hturns _
      obtain rfl := Nat.le_zero.mp hturns
      exact ⟨[],w,rfl,rfl⟩
    | succ turns ih =>
      intro left w hturns hleft
      cases left with
      | zero => exact ⟨[],w,rfl,rfl⟩
      | succ left =>
        have hne : w.state ≠ [] := by
          rw [← List.length_pos_iff]
          omega
        obtain ⟨first,w1,hfirst,hnode⟩ := readCallback_gives hP (Nat.succ_pos left) hne
        obtain ⟨hsplit,hpos,hle⟩ := readCallback_some P hfirst
        rw [hsplit, List.length_append] at hleft
        obtain ⟨others,w2,hothers,hnode'⟩ := ih (left + 1 - first.length) w1 (by omega) (by omega)
        refine ⟨first ++ others,w2,?_,hnode'.trans hnode⟩
        unfold readAll
        rw [hfirst]
        dsimp only
        rw [hothers]
  obtain ⟨given,w',hgiven,hnode⟩ := hgives len len w le_rfl (by rw [hstate, List.length_append]; omega)
  obtain ⟨hsplit,hlength⟩ := readAll_some P hgiven
  rw [hstate] at hsplit
  obtain ⟨rfl,rfl⟩ := List.append_inj hsplit (hlen.trans hlength.symm)
  exact ⟨w',hgiven,rfl,hnode⟩

/-! ### Directories -/

/-- The directories above one are there. -/
theorem isDir_above {e : β} {k rest : List Name} (h : IsDir (node e) (k ++ rest)) : IsDir (node e) k := by
  induction rest using List.reverseRecOn with
  | nil => rwa [List.append_nil] at h
  | append_singleton rest x ih =>
    obtain ⟨name,hname⟩ := h
    rw [← List.append_assoc] at hname
    exact ih (hP.rooted e (k ++ rest) x (by rw [hname]; exact Option.some_ne_none _))

theorem makeDir_there (path : Path) (w : ExtractWorld β) (h : IsDir (node w.env) (volumeKey fold path)) :
    ∃ w', makeDir P path w = (true,w') ∧ w'.state = w.state ∧ node w'.env = node w.env := by
  obtain ⟨hresult,hnode⟩ := hP.mkdir_there w.env path h
  unfold makeDir
  dsimp only
  rw [hresult]
  exact ⟨_,rfl,rfl,hnode⟩

theorem makeDirs_there (done rest : Path) (w : ExtractWorld β)
    (h : ∀ p, p ++ [slash] <+: done ++ rest → IsDir (node w.env) (volumeKey fold p)) :
    ∃ w', makeDirs P done rest w = (true,w') ∧ w'.state = w.state ∧ node w'.env = node w.env := by
  induction rest generalizing done w with
  | nil => exact ⟨w,rfl,rfl,rfl⟩
  | cons c rest ih =>
    have hsplit : done ++ c :: rest = (done ++ [c]) ++ rest := by simp
    unfold makeDirs
    split_ifs with hslash
    · obtain ⟨w1,hmade,hstate,hnode⟩ := makeDir_there hP done w
        (h done (by rw [hsplit, hslash.1]; exact List.prefix_append _ _))
      obtain ⟨w2,hrest,hstate',hnode'⟩ := ih (done ++ [c]) w1 (by rw [← hsplit, hnode]; exact h)
      rw [hmade]
      exact ⟨w2,hrest,hstate'.trans hstate,hnode'.trans hnode⟩
    · exact ih (done ++ [c]) w (by rwa [← hsplit])

/-- The directories on the way to one that is there. -/
theorem isDir_of_prefix {e : β} {p path : Path} (h : p ++ [slash] <+: path) (hdir : IsDir (node e) (volumeKey fold path)) :
    IsDir (node e) (volumeKey fold p) := by
  obtain ⟨rest,rfl⟩ := h
  rw [List.append_assoc, List.singleton_append, volumeKey, pathNames_append_slash, List.map_append] at hdir
  exact isDir_above hP hdir

omit hP in
/-- A separator at the end of a path names nothing more. -/
theorem pathNames_stripped (path : Path) :
    pathNames (if path.getLast? = some slash then path.dropLast else path) = pathNames path := by
  split_ifs with hlast
  · obtain ⟨q,rfl⟩ := List.getLast?_eq_some_iff.mp hlast
    rw [List.dropLast_concat, pathNames_slash]
  · rfl

/-- `mkdir_p` finds a directory that is there. -/
theorem mkdirP_there {path : Path} (hlength : path.length < tarPathMax) {w : ExtractWorld β}
    (h : IsDir (node w.env) (volumeKey fold path)) :
    ∃ w', mkdirP P path w = (true,w') ∧ w'.state = w.state ∧ node w'.env = node w.env := by
  have hstripped : volumeKey fold (if path.getLast? = some slash then path.dropLast else path) = volumeKey fold path :=
    congrArg (List.map fold) (pathNames_stripped path)
  rw [← hstripped] at h
  unfold mkdirP
  dsimp only
  rw [List.take_of_length_le (by omega)]
  generalize (if path.getLast? = some slash then path.dropLast else path) = q at h
  generalize (if q[1]? = some colon ∧ q[2]? = some slash then 3 else 0) = drive
  split_ifs with hnil hroot hshort
  · exact ⟨w,rfl,rfl,rfl⟩
  · exact ⟨w,rfl,rfl,rfl⟩
  · exact ⟨w,rfl,rfl,rfl⟩
  · obtain ⟨w1,hdirs,hstate,hnode⟩ := makeDirs_there hP (q.take drive) (q.drop drive) w
      (by rw [List.take_append_drop]; exact fun p hp => isDir_of_prefix hP hp h)
    rw [← hnode] at h
    obtain ⟨w2,hdir,hstate',hnode'⟩ := makeDir_there hP q w1 h
    rw [hdirs]
    exact ⟨w2,hdir,hstate'.trans hstate,hnode'.trans hnode⟩

omit hP in
/-- A separator in front of a name is in what is before the name. -/
theorem LegalName.prefix_front {p front : Path} {name : Name} (hname : LegalName name)
    (h : p ++ [slash] <+: front ++ name) : p ++ [slash] <+: front := by
  rcases Nat.lt_or_ge p.length front.length with hlt | hge
  · have hlength : (p ++ [slash]).length ≤ front.length := by
      rw [List.length_append, List.length_singleton]
      exact hlt
    exact List.prefix_of_prefix_length_le h (List.prefix_append front name) hlength
  · have hslash : (front ++ name)[p.length]? = some slash := by
      obtain ⟨rest,hrest⟩ := h
      rw [← hrest, List.append_assoc, List.getElem?_append_right le_rfl, Nat.sub_self]
      rfl
    rw [List.getElem?_append_right hge] at hslash
    have hsep := hname.no_separator slash (List.mem_of_getElem? hslash)
    cases hsep

/-- `mkdir_p` makes a directory in one that is there. -/
theorem mkdirP_new {front : Path} {name : Name} (hfronts : Fronts front) (hname : LegalName name)
    (hlength : (front ++ name ++ [slash]).length < tarPathMax) {w : ExtractWorld β}
    (hdir : IsDir (node w.env) (volumeKey fold front)) (hnew : node w.env (volumeKey fold front ++ [fold name]) = none) :
    ∃ w', mkdirP P (front ++ name ++ [slash]) w = (true,w') ∧ w'.state = w.state ∧
      node w'.env = Function.update (node w.env) (volumeKey fold front ++ [fold name]) (some ⟨name,none⟩) := by
  have hnames : pathNames (front ++ name) = pathNames front ++ [name] := by
    rw [hfronts.names, pathNames_name hname]
  have hkey : volumeKey fold (front ++ name) = volumeKey fold front ++ [fold name] := by
    rw [volumeKey, hnames, List.map_append]
    rfl
  have hcolon : ∀ i, (front ++ name)[i]? = some colon → i + 1 < (front ++ name).length := by
    intro i hi
    by_contra hge
    obtain ⟨hlt,_⟩ := List.getElem?_eq_some_iff.mp hi
    have hlast : (front ++ name).getLast? = some colon := by
      rw [List.getLast?_eq_getElem?]
      rwa [show (front ++ name).length - 1 = i by omega]
    rw [List.getLast?_append_of_ne_nil _ hname.1] at hlast
    have hmem := (hname.2.1 colon (List.mem_of_getLast? hlast)).2
    simp [colon] at hmem
  have hroot : ¬((front ++ name ++ [slash]).length = 3 ∧ (front ++ name ++ [slash])[1]? = some colon ∧
      (front ++ name ++ [slash])[2]? = some slash) := by
    rintro ⟨hthree,hone,-⟩
    rw [List.length_append, List.length_singleton] at hthree
    rw [List.getElem?_append_left (by omega)] at hone
    have := hcolon 1 hone
    omega
  have hshort : ¬((front ++ name).length = 2 ∧ (front ++ name)[1]? = some colon) := by
    rintro ⟨htwo,hone⟩
    have := hcolon 1 hone
    omega
  unfold mkdirP
  dsimp only
  rw [List.take_of_length_le (by omega), if_neg (by simp), if_neg hroot]
  simp only [List.getLast?_concat, if_true, List.dropLast_concat]
  rw [if_neg hshort]
  generalize (if (front ++ name)[1]? = some colon ∧ (front ++ name)[2]? = some slash then 3 else 0) = drive
  have hway : ∀ p, p ++ [slash] <+: (front ++ name).take drive ++ (front ++ name).drop drive →
      IsDir (node w.env) (volumeKey fold p) := by
    intro p hp
    rw [List.take_append_drop] at hp
    exact isDir_of_prefix hP (hname.prefix_front hp) hdir
  obtain ⟨w1,hdirs,hstate,hnode⟩ := makeDirs_there hP _ _ w hway
  obtain ⟨hmade,hnode'⟩ := hP.mkdir_new w1.env (front ++ name) (pathNames front) name hnames hname
    (by rw [hnode]; exact hdir) (by rw [hnode, hkey]; exact hnew)
  rw [hdirs]
  dsimp only
  unfold makeDir
  dsimp only
  rw [hmade]
  refine ⟨_,rfl,hstate,?_⟩
  rw [hnode', hkey, hnode]

/-! ### Files -/

/-- The data of an entry are put behind what the file has. -/
theorem copyData_appends {path : Path} {name : Name} {turns : ℕ} {data old rest : List UInt8} {w : ExtractWorld β}
    (hturns : data.length ≤ turns) (hstate : w.state = data ++ rest)
    (hnode : node w.env (volumeKey fold path) = some ⟨name,some old⟩) (hsize : old.length + data.length < 2^32) :
    ∃ w', copyData P path turns data.length w = (true,w') ∧ w'.state = rest ∧
      node w'.env = Function.update (node w.env) (volumeKey fold path) (some ⟨name,some (old ++ data)⟩) := by
  induction turns generalizing data old w with
  | zero =>
    obtain rfl : data = [] := List.eq_nil_of_length_eq_zero (Nat.le_zero.mp hturns)
    refine ⟨w,rfl,hstate,?_⟩
    rw [List.append_nil, ← hnode, Function.update_eq_self]
  | succ turns ih =>
    cases data with
    | nil =>
      refine ⟨w,rfl,hstate,?_⟩
      rw [List.append_nil, ← hnode, Function.update_eq_self]
    | cons b data =>
      have hne : w.state ≠ [] := by simp [hstate]
      have hwanted : 0 < min (data.length + 1) 1024 := by omega
      obtain ⟨bytes,w1,hbytes,hnode1⟩ := readCallback_gives hP hwanted hne
      obtain ⟨hsplit,hpos,hle⟩ := readCallback_some P hbytes
      have hshare : ∃ more, b :: data = bytes ++ more ∧ w1.state = more ++ rest := by
        rcases List.append_eq_append_iff.mp (hsplit.symm.trans hstate) with ⟨more,hdata,hrest⟩ | ⟨more,hdata,hrest⟩
        · exact ⟨more,hdata,hrest⟩
        · have hnone : more = [] := by
            rw [← List.length_eq_zero_iff]
            have hlength := congrArg List.length hdata
            rw [List.length_append, List.length_cons] at hlength
            omega
          subst hnone
          exact ⟨[],by rw [hdata, List.append_nil, List.append_nil],hrest.symm⟩
      obtain ⟨more,hdata,hrest⟩ := hshare
      have hlength : data.length + 1 = bytes.length + more.length := by
        rw [← List.length_append, ← hdata, List.length_cons]
      rw [List.length_cons] at hsize hturns
      obtain ⟨hwritten,hnode2⟩ := hP.write_appends w1.env path name old bytes (by rw [hnode1]; exact hnode) (by omega)
      rw [hnode1] at hnode2
      obtain ⟨w2,hcopied,hstate2,hnode3⟩ := @ih more (old ++ bytes)
        ⟨w1.state,(P.write w1.env path bytes).2,w1.calls ++ [(w1.state,.write path bytes)]⟩ (by omega) hrest
        (by rw [hnode2, Function.update_self]) (by rw [List.length_append]; omega)
      refine ⟨w2,?_,hstate2,?_⟩
      · unfold copyData
        rw [List.length_cons]
        dsimp only
        rw [hbytes]
        dsimp only
        rw [hwritten, if_neg (by simp), hlength, Nat.add_sub_cancel_left]
        exact hcopied
      · rw [hnode3, hnode2, Function.update_idem, List.append_assoc, ← hdata]

/-- An entry's data make a file in a directory that is there. -/
theorem extractFile_new {front : Path} {name : Name} (hfronts : Fronts front) (hname : LegalName name)
    {data rest : List UInt8} {w : ExtractWorld β}
    (hstate : w.state = data ++ zeros ((tarBlock - data.length % tarBlock) % tarBlock) ++ rest)
    (hsize : data.length < 2^32) (hdir : IsDir (node w.env) (volumeKey fold front))
    (hnew : node w.env (volumeKey fold front ++ [fold name]) = none) :
    ∃ w', extractFile P (front ++ name) data.length w = (true,w') ∧ w'.state = rest ∧
      node w'.env = Function.update (node w.env) (volumeKey fold front ++ [fold name]) (some ⟨name,some data⟩) := by
  have hnames : pathNames (front ++ name) = pathNames front ++ [name] := by
    rw [hfronts.names, pathNames_name hname]
  have hkey : volumeKey fold (front ++ name) = volumeKey fold front ++ [fold name] := by
    rw [volumeKey, hnames, List.map_append]
    rfl
  obtain ⟨hopened,hnode⟩ := hP.open_new w.env (front ++ name) (pathNames front) name hnames hname hdir
    (by rw [hkey]; exact hnew)
  rw [hkey] at hnode
  rw [List.append_assoc] at hstate
  let opened : ExtractWorld β :=
    ⟨w.state,(P.openWrite w.env (front ++ name)).2,w.calls ++ [(w.state,.openWrite (front ++ name))]⟩
  have hold : node opened.env (volumeKey fold (front ++ name)) = some ⟨name,some []⟩ := by
    rw [hkey, hnode, Function.update_self]
  have hstate0 : opened.state = data ++ (zeros ((tarBlock - data.length % tarBlock) % tarBlock) ++ rest) := hstate
  obtain ⟨w1,hcopied,hstate1,hnode1⟩ := copyData_appends hP (le_refl data.length) hstate0 hold (by simpa using hsize)
  have hclosed : (closeFile P (front ++ name) w1).state =
      zeros ((tarBlock - data.length % tarBlock) % tarBlock) ++ rest := hstate1
  obtain ⟨w2,hpad,hstate2,hnode2⟩ := readExact_gives hP hclosed (by rw [zeros, List.length_replicate])
  refine ⟨w2,?_,hstate2,?_⟩
  · unfold extractFile
    dsimp only
    rw [hopened, if_neg (by simp), hcopied]
    dsimp only
    rw [hpad]
  · rw [hnode2, closeFile, hP.close_node, hnode1, hkey, hnode, Function.update_idem, List.nil_append]

/-! ### Entries -/

omit hP in
/-- The directory of a file is what is before its name. -/
theorem parentPath_front {p : Path} {name : Name} (h : LegalName name) : parentPath (p ++ [slash] ++ name) = p := by
  have hname : ∀ c ∈ name.reverse, (c != slash) = true := by
    intro c hc
    rw [bne_iff_ne]
    rintro rfl
    have hsep := h.no_separator slash (List.mem_reverse.mp hc)
    cases hsep
  rw [parentPath, List.reverse_append, List.reverse_append, List.dropWhile_append_of_pos hname, List.reverse_singleton,
    List.singleton_append, List.dropWhile_cons_of_neg (by simp), List.drop_one, List.tail_cons, List.reverse_reverse]

theorem makeParent_there {front : Path} {name : Name} (hfronts : Fronts front) (hname : LegalName name)
    (hlength : (front ++ name).length < tarPathMax) {w : ExtractWorld β} (hdir : IsDir (node w.env) (volumeKey fold front)) :
    ∃ w', makeParent P (front ++ name) w = (true,w') ∧ w'.state = w.state ∧ node w'.env = node w.env := by
  unfold makeParent
  rcases hfronts with rfl | ⟨p,rfl⟩
  · rw [if_neg]
    · exact ⟨w,rfl,rfl,rfl⟩
    · intro hmem
      have hsep := hname.no_separator slash hmem
      cases hsep
  · rw [List.length_append, List.length_append] at hlength
    rw [if_pos (by simp), parentPath_front hname, if_neg (by omega)]
    apply mkdirP_there hP (by omega)
    rwa [volumeKey, pathNames_slash] at hdir

end

/-! ## Unpacking the archive -/

/-- An object as the writer takes it. -/
structure Archivable (item : FatItem) : Prop where
  name : LegalName item.name
  front : ∀ name ∈ item.front, LegalName name
  short : (itemText item).length < 100
  small : ∀ data, item.data = some data → data.length < 2^32

/-- An object that the reader takes: two dots in a row make a name unsafe, and the path has to
fit with a separator and a NUL. -/
def Extractable (dest : Path) (item : FatItem) : Prop :=
  relpathSafe (itemText item) = true ∧ dest.length + (itemText item).length + 2 ≤ tarPathMax

instance (dest : Path) (item : FatItem) : Decidable (Extractable dest item) := by unfold Extractable; infer_instance

theorem Archivable.text {item : FatItem} (h : Archivable item) : ∀ c ∈ itemText item, c ≠ 0 := by
  have hlegal : ∀ name : Name, LegalName name → ∀ c ∈ name, c ≠ 0 := by
    rintro name hname c hc rfl
    exact absurd (hname.2.1 0 hc).1 (by decide)
  intro c hc
  rw [itemText, List.mem_append, List.mem_append, frontText, List.mem_flatMap] at hc
  rcases hc with (⟨name,hname,hc⟩ | hc) | hc
  · rw [List.mem_append, List.mem_singleton] at hc
    rcases hc with hc | rfl
    · exact hlegal name (h.front name hname) c hc
    · decide
  · exact hlegal _ h.name c hc
  · split_ifs at hc
    · rw [List.mem_singleton.mp hc]
      decide
    · cases hc

/-- The header of an object and what follows it. -/
theorem itemBytes_header {item : FatItem} (h : Archivable item) :
    ∃ block tail size, itemBytes item = block ++ tail ∧
      HeaderOf (itemText item) (if item.data = none then typeDir else typeFile) size block ∧
      ((item.data = none ∧ tail = []) ∨ ∃ data, item.data = some data ∧ size = data.length ∧
        tail = data ++ zeros ((tarBlock - data.length % tarBlock) % tarBlock)) := by
  unfold itemBytes
  cases hdata : item.data with
  | none =>
    have hheader := headerOf_fatTarHeader typeDir 0 h.short h.text (show 0 < 8^11 by decide)
    exact ⟨_,[],0,(List.append_nil _).symm,hheader,.inl ⟨rfl,rfl⟩⟩
  | some data =>
    have hsmall := h.small data hdata
    have hheader := headerOf_fatTarHeader typeFile 0 h.short h.text
      (show data.length < 8^11 by omega)
    exact ⟨_,_,data.length,rfl,hheader,.inr ⟨data,rfl,rfl,rfl⟩⟩

theorem joinUnder_fits {dest : Path} {rel : Name} (h : dest.length + rel.length + 2 ≤ tarPathMax) :
    joinUnder dest rel tarPathMax = some (asParent dest ++ rel) := if_neg (by omega)

section
variable {β : Type} {fold : Name → Name} {P : ExtractOutside β} {node : β → Volume} {dest : Path}

/-- An object is put in its place, or the reader refuses it. -/
theorem extractEntry_item (hP : Spacious fold P node) {item : FatItem} (hitem : Archivable item) {block : List UInt8}
    {size : ℕ} (hheader : HeaderOf (itemText item) (if item.data = none then typeDir else typeFile) size block)
    {w : ExtractWorld β} {rest : List UInt8} (hstate : (item.data = none ∧ w.state = rest) ∨ ∃ data, item.data = some data ∧ size = data.length ∧
      w.state = data ++ zeros ((tarBlock - data.length % tarBlock) % tarBlock) ++ rest)
    (hplace : Placeable fold (volumeKey fold dest) (node w.env) item) (hfits : Extractable dest item) :
    ∃ w', extractEntry P dest block w = (true,w') ∧ w'.state = rest ∧
      node w'.env = placed fold (volumeKey fold dest) (node w.env) item := by
  obtain ⟨front,name,data⟩ := item
  obtain ⟨hsafe,hroom⟩ := hfits
  have hparent := asParent_length dest
  have hfronts : Fronts (asParent dest ++ frontText front) := (fronts_asParent dest).append (fronts_frontText front)
  have hkey : volumeKey fold (asParent dest ++ frontText front) = volumeKey fold dest ++ front.map fold := by
    rw [volumeKey, (fronts_asParent dest).names, pathNames_asParent, pathNames_frontText hitem.front, List.map_append]
    rfl
  obtain ⟨hdir,hnew⟩ := hplace
  rw [itemKey_eq, ← hkey] at hnew
  rw [← hkey] at hdir
  have hplaced : placed fold (volumeKey fold dest) (node w.env) ⟨front,name,data⟩ =
      Function.update (node w.env) (volumeKey fold (asParent dest ++ frontText front) ++ [fold name]) (some ⟨name,data⟩) := by
    rw [placed, itemKey_eq, hkey]
  have hname := hitem.name
  dsimp only at hdir hname
  unfold extractEntry
  dsimp only
  rw [hheader.named, hsafe, if_neg (by simp), hheader.sized]
  dsimp only
  rw [joinUnder_fits hroom, hheader.typed, hplaced]
  dsimp only
  cases data with
  | none =>
    have hrest : w.state = rest := by
      rcases hstate with ⟨-,hrest⟩ | ⟨data,hdata,-⟩
      · exact hrest
      · cases hdata
    have hpath : asParent dest ++ itemText ⟨front,name,none⟩ = asParent dest ++ frontText front ++ name ++ [slash] := by
      simp [itemText]
    have hlength : (asParent dest ++ itemText ⟨front,name,none⟩).length < tarPathMax := by
      rw [List.length_append]
      omega
    rw [if_pos rfl, if_pos rfl, hpath]
    rw [hpath] at hlength
    obtain ⟨w',hmade,hstate',hnode⟩ := mkdirP_new hP hfronts hname hlength hdir hnew
    exact ⟨w',hmade,hstate'.trans hrest,hnode⟩
  | some data =>
    obtain ⟨hsize,hrest⟩ : size = data.length ∧
        w.state = data ++ zeros ((tarBlock - data.length % tarBlock) % tarBlock) ++ rest := by
      rcases hstate with ⟨hdata,-⟩ | ⟨data',hdata,hsize,hrest⟩
      · cases hdata
      · cases hdata
        exact ⟨hsize,hrest⟩
    have hpath : asParent dest ++ itemText ⟨front,name,some data⟩ = asParent dest ++ frontText front ++ name := by
      simp [itemText]
    have hlength : (asParent dest ++ itemText ⟨front,name,some data⟩).length < tarPathMax := by
      rw [List.length_append]
      omega
    rw [if_neg (Option.some_ne_none data), if_neg (by decide), hpath, hsize]
    rw [hpath] at hlength
    obtain ⟨w1,hmade,hstate1,hnode1⟩ := makeParent_there hP hfronts hname hlength hdir
    rw [← hstate1] at hrest
    rw [← hnode1] at hdir hnew
    obtain ⟨w2,hfile,hstate2,hnode2⟩ := extractFile_new hP hfronts hname hrest (hitem.small data rfl) hdir hnew
    rw [hmade]
    exact ⟨w2,hfile,hstate2,by rw [hnode2, hnode1]⟩

theorem extractEntry_refused {item : FatItem} {type : UInt8} {block : List UInt8} {size : ℕ}
    (hheader : HeaderOf (itemText item) type size block) (hfits : ¬Extractable dest item) (w : ExtractWorld β) :
    (extractEntry P dest block w).1 = false := by
  unfold extractEntry
  dsimp only
  rw [hheader.named]
  by_cases hsafe : relpathSafe (itemText item) = false
  · rw [if_pos hsafe]
  · rw [if_neg hsafe, hheader.sized]
    dsimp only
    have hfull : tarPathMax < dest.length + 1 + (itemText item).length + 1 := by
      by_contra hle
      exact hfits ⟨Bool.not_eq_false _ ▸ hsafe,by omega⟩
    rw [joinUnder, if_pos hfull]

/-- A header is not taken for the end. -/
theorem HeaderOf.not_zero {name : Path} {type : UInt8} {size : ℕ} {block : List UInt8} (h : HeaderOf name type size block)
    (htype : type ≠ 0) : block.all (· == 0) = false := by
  rw [List.all_eq_false]
  exact ⟨type,List.mem_of_getElem? h.typed,by simpa using htype⟩

/-- The loop reads a header and leaves the rest to the entry. -/
theorem extractLoop_header (hP : Spacious fold P node) {name : Path} {type : UInt8} {size : ℕ} {block more : List UInt8}
    (hheader : HeaderOf name type size block) (htype : type ≠ 0) {w : ExtractWorld β} (hstate : w.state = block ++ more)
    (dest : Path) (turns zeroBlocks : ℕ) :
    ∃ w1, w1.state = more ∧ node w1.env = node w.env ∧ extractLoop P dest (turns + 1) zeroBlocks w =
      match extractEntry P dest block w1 with
      | (false,w) => (.failure,w)
      | (true,w) => extractLoop P dest turns 0 w := by
  obtain ⟨w1,hread,hmore,hnode⟩ := readExact_gives hP hstate hheader.length
  refine ⟨w1,hmore,hnode,?_⟩
  rw [extractLoop, hread]
  dsimp only
  rw [hheader.not_zero htype]
  exact if_neg (by simp)

/-- One object of an archive: it is put in its place, or it ends the reading. -/
theorem extractLoop_item (hP : Spacious fold P node) {item : FatItem} (hitem : Archivable item) {w : ExtractWorld β}
    {rest : List UInt8} (hstate : w.state = itemBytes item ++ rest)
    (hplace : Placeable fold (volumeKey fold dest) (node w.env) item) (turns : ℕ) :
    (Extractable dest item → ∃ w', extractLoop P dest (turns + 1) 0 w = extractLoop P dest turns 0 w' ∧ w'.state = rest ∧
      node w'.env = placed fold (volumeKey fold dest) (node w.env) item) ∧
    (¬Extractable dest item → (extractLoop P dest (turns + 1) 0 w).1 = .failure) := by
  obtain ⟨block,tail,size,hbytes,hheader,htail⟩ := itemBytes_header hitem
  rw [hbytes, List.append_assoc] at hstate
  obtain ⟨w1,hmore,hnode,hloop⟩ := extractLoop_header hP hheader (by split_ifs <;> decide) hstate dest turns 0
  have hentry : (item.data = none ∧ w1.state = rest) ∨ ∃ data, item.data = some data ∧ size = data.length ∧
      w1.state = data ++ zeros ((tarBlock - data.length % tarBlock) % tarBlock) ++ rest := by
    rcases htail with ⟨hdata,rfl⟩ | ⟨data,hdata,hsize,rfl⟩
    · exact .inl ⟨hdata,hmore⟩
    · exact .inr ⟨data,hdata,hsize,hmore⟩
  rw [hloop]
  constructor
  · intro hfits
    rw [← hnode] at hplace ⊢
    obtain ⟨w2,hdone,hstate2,hnode2⟩ := extractEntry_item hP hitem hheader hentry hplace hfits
    rw [hdone]
    exact ⟨w2,rfl,hstate2,hnode2⟩
  · intro hfits
    have hrefused := extractEntry_refused (P := P) hheader hfits w1
    cases hresult : extractEntry P dest block w1 with
    | mk ok w2 =>
      rw [hresult] at hrefused
      cases hrefused
      rfl

/-- Two blocks of zeros end the archive. -/
theorem extractLoop_end (hP : Spacious fold P node) {w : ExtractWorld β} {rest : List UInt8}
    (hstate : w.state = zeros (tarBlock * 2) ++ rest) (dest : Path) (turns : ℕ) :
    ∃ w', extractLoop P dest (turns + 2) 0 w = (.success,w') ∧ w'.state = rest ∧ node w'.env = node w.env := by
  have hzeros : zeros (tarBlock * 2) = zeros tarBlock ++ zeros tarBlock := by
    rw [Nat.mul_two, zeros, zeros, List.replicate_add]
  have hall : (zeros tarBlock).all (· == 0) = true := by simp [zeros]
  rw [hzeros, List.append_assoc] at hstate
  obtain ⟨w1,hread1,hstate1,hnode1⟩ := readExact_gives hP hstate (by rw [zeros, List.length_replicate])
  obtain ⟨w2,hread2,hstate2,hnode2⟩ := readExact_gives hP hstate1 (by rw [zeros, List.length_replicate])
  refine ⟨w2,?_,hstate2,hnode2.trans hnode1⟩
  rw [extractLoop, hread1]
  dsimp only
  rw [if_pos hall, if_neg (by decide), extractLoop, hread2]
  dsimp only
  rw [if_pos hall, if_pos (by decide)]

theorem extractLoop_items (hP : Spacious fold P node) {items : List FatItem} {m m' : Volume}
    (hplaces : Places fold (volumeKey fold dest) m items m') (hitems : ∀ item ∈ items, Archivable item)
    (hfits : ∀ item ∈ items, Extractable dest item) {w : ExtractWorld β} {rest : List UInt8} {turns : ℕ}
    (hnode : node w.env = m) (hstate : w.state = items.flatMap itemBytes ++ (zeros (tarBlock * 2) ++ rest))
    (hturns : items.length + 2 ≤ turns) :
    ∃ w', extractLoop P dest turns 0 w = (.success,w') ∧ w'.state = rest ∧ node w'.env = m' := by
  obtain ⟨turns,rfl⟩ := Nat.exists_eq_add_of_le' (Nat.le_of_add_left_le hturns)
  induction hplaces generalizing w turns with
  | nil m =>
    obtain ⟨w',hend,hrest,hnode'⟩ := extractLoop_end hP hstate dest turns
    exact ⟨w',hend,hrest,hnode'.trans hnode⟩
  | @cons m m' item items here _ ih =>
    subst hnode
    rw [List.flatMap_cons, List.append_assoc] at hstate
    obtain ⟨w1,hloop,hstate1,hnode1⟩ :=
      (extractLoop_item hP (hitems item List.mem_cons_self) hstate here (turns + 1)).1 (hfits item List.mem_cons_self)
    cases turns with
    | zero => simp at hturns
    | succ turns =>
      rw [hloop]
      exact ih (fun other hother => hitems other (List.mem_cons_of_mem item hother))
        (fun other hother => hfits other (List.mem_cons_of_mem item hother)) hnode1 hstate1 turns
        (by rw [List.length_cons] at hturns; omega)

/-- Where one object is refused, so is the archive. -/
theorem extractLoop_refuses (hP : Spacious fold P node) {items : List FatItem} {m m' : Volume}
    (hplaces : Places fold (volumeKey fold dest) m items m') (hitems : ∀ item ∈ items, Archivable item)
    (hfits : ∃ item ∈ items, ¬Extractable dest item) {w : ExtractWorld β} {rest : List UInt8} {turns : ℕ}
    (hnode : node w.env = m) (hstate : w.state = items.flatMap itemBytes ++ rest) (hturns : items.length ≤ turns) :
    (extractLoop P dest turns 0 w).1 = .failure := by
  induction hplaces generalizing w turns with
  | nil m =>
    obtain ⟨item,hmem,-⟩ := hfits
    cases hmem
  | @cons m m' item items here _ ih =>
    subst hnode
    rw [List.flatMap_cons, List.append_assoc] at hstate
    cases turns with
    | zero => simp at hturns
    | succ turns =>
      have hstep := extractLoop_item hP (hitems item List.mem_cons_self) hstate here turns
      by_cases hfit : Extractable dest item
      · obtain ⟨w1,hloop,hstate1,hnode1⟩ := hstep.1 hfit
        rw [hloop]
        obtain ⟨bad,hmem,hbad⟩ := hfits
        rcases List.mem_cons.mp hmem with rfl | hmem
        · exact absurd hfit hbad
        · exact ih (fun other hother => hitems other (List.mem_cons_of_mem item hother)) ⟨bad,hmem,hbad⟩ hnode1 hstate1
            (by rw [List.length_cons] at hturns; omega)
      · exact hstep.2 hfit

end

end Bvstk.Fat
