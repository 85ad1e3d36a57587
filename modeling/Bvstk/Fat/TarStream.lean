import Bvstk.Fat.TarExtract
import Bvstk.Library.NamedTree
import Mathlib

/-! # Writing an archive

`tar_stream_dir_fatfs` of `tar.c`: a directory is walked and written through a callback that
takes pieces of any size. FatFs may answer anything. Over a directory tree that does not
change, what has been written after a success is the archive of the tree.
-/
namespace Bvstk.Fat
open Bvstk.Fs Bvstk.Config NamedTree

/-- What of `FILINFO` is used for a file: `AM_DIR` and the size. -/
structure FatStat where
  directory : Bool
  size : ℕ
  deriving DecidableEq, Repr

/-- FatFs as it is read, and the callback, by the number of bytes it takes; none is a failure.
A directory is read as in `FatFs`: `opendir` has found what `readdir` gives entry by entry. -/
structure StreamOutside (σ : Type) where
  stat : σ → Path → Except FatError FatStat × σ
  openRead : σ → Path → Except FatError Unit × σ
  read : σ → Path → (offset length : ℕ) → Except FatError (List UInt8) × σ
  close : σ → Path → σ
  opendir : σ → Path → Except FatError (List FilInfo) × σ
  readdir : σ → Path → Except FatError Unit × σ
  closedir : σ → Path → σ
  accept : σ → List UInt8 → ℕ × σ

/-- What has been written, and what is outside. -/
structure StreamWorld (σ : Type) where
  out : List UInt8
  env : σ

/-! ## Headers -/

/-- `tar_set_octal`: zeros in front and a NUL behind. A number too large is a row of sevens. -/
def tarSetOctal (width v : ℕ) : List UInt8 :=
  if 8^(width - 1) ≤ v then List.replicate (width - 1) 55 ++ [0] else octal (width - 1) v ++ [0]

/-- The fields of `tar_hdr_t` in order, around the checksum; owner and group are 0. -/
def fatTarFields (name : Path) (type : UInt8) (size mtime : ℕ) (checksum : List UInt8) : List UInt8 :=
  field 100 name ++ field 8 (tarMode type) ++ tarSetOctal 8 0 ++ tarSetOctal 8 0 ++ tarSetOctal 12 size ++
    tarSetOctal 12 mtime ++ checksum ++ [type] ++ zeros 100 ++ field 255 tarMagic

/-- A header. The last byte of the checksum is a blank. -/
def fatTarHeader (name : Path) (type : UInt8) (size mtime : ℕ) : List UInt8 :=
  let sum := byteSum (fatTarFields name type size mtime (List.replicate 8 32))
  fatTarFields name type size mtime ((tarSetOctal 8 sum).take 7 ++ [32])

section
variable {σ : Type} (R : StreamOutside σ)

/-! ## Files -/

/-- The loop of `write_all`; each turn takes at least one byte. -/
def writeTurns : (turns : ℕ) → List UInt8 → StreamWorld σ → Bool × StreamWorld σ
  | _, [], w => (true,w)
  | 0, _ :: _, w => (false,w)
  | turns + 1, b :: data, w =>
    let (n,env) := R.accept w.env (b :: data)
    if n = 0 then (false,⟨w.out,env⟩)
    else writeTurns turns ((b :: data).drop n) ⟨w.out ++ (b :: data).take n,env⟩

/-- `write_all`. -/
def writeAll (data : List UInt8) (w : StreamWorld σ) : Bool × StreamWorld σ := writeTurns R data.length data w

/-- The loop that copies the data of a file; reading nothing ends it. -/
def copyOut (fatPath : Path) : (turns remaining offset : ℕ) → StreamWorld σ → Bool × StreamWorld σ
  | _, 0, _, w => (true,w)
  | 0, _, _, w => (false,w)
  | turns + 1, remaining + 1, offset, w =>
    match R.read w.env fatPath offset (min (remaining + 1) 1024) with
    | (.error _,env) => (false,⟨w.out,env⟩)
    | (.ok bytes,env) =>
      if bytes = [] then (true,⟨w.out,env⟩)
      else
        match writeAll R bytes ⟨w.out,env⟩ with
        | (false,w) => (false,w)
        | (true,w) => copyOut fatPath turns (remaining + 1 - bytes.length) (offset + bytes.length) w

def closeStreamed (fatPath : Path) (w : StreamWorld σ) : StreamWorld σ := ⟨w.out,R.close w.env fatPath⟩

/-- `stream_file_as_tar`. -/
def streamFile (fatPath tarName : Path) (mtime : ℕ) (w : StreamWorld σ) : Bool × StreamWorld σ :=
  match R.stat w.env fatPath with
  | (.error _,env) => (false,⟨w.out,env⟩)
  | (.ok info,env) =>
    if info.directory = true ∨ 100 ≤ tarName.length then (false,⟨w.out,env⟩)
    else
      match writeAll R (fatTarHeader tarName typeFile info.size mtime) ⟨w.out,env⟩ with
      | (false,w) => (false,w)
      | (true,w) =>
        match R.openRead w.env fatPath with
        | (.error _,env) => (false,⟨w.out,env⟩)
        | (.ok (),env) =>
          match copyOut R fatPath info.size info.size 0 ⟨w.out,env⟩ with
          | (false,w) => (false,closeStreamed R fatPath w)
          | (true,w) => writeAll R (zeros ((tarBlock - info.size % tarBlock) % tarBlock)) (closeStreamed R fatPath w)

/-! ## Directories -/

/-- The entries for a directory itself and the one above it. -/
def isDot (name : Name) : Bool := name == [46] || name == [46,46]

/-- The name of an entry in the archive. -/
def childTar (tarPrefix : Path) (name : Name) : Option Path :=
  if tarPrefix = [] then some (name.take 255) else joinUnder tarPrefix name tarPathMax

/-- What is done for an entry; `inside` streams a directory. -/
def streamEntry (inside : Path → Path → StreamWorld σ → Bool × StreamWorld σ) (fatDir tarPrefix : Path) (e : FilInfo)
    (w : StreamWorld σ) : Bool × StreamWorld σ :=
  let name := e.fname.take 255
  match joinUnder fatDir name tarPathMax, childTar tarPrefix name with
  | some childFat, some childTar =>
    if e.directory then
      let dirName := (childTar ++ [slash]).take 255
      if 100 ≤ dirName.length then (false,w)
      else
        match writeAll R (fatTarHeader dirName typeDir 0 0) w with
        | (false,w) => (false,w)
        | (true,w) => inside childFat childTar w
    else streamFile R childFat childTar 0 w
  | _, _ => (false,w)

def closeDir (fatDir : Path) (w : StreamWorld σ) : StreamWorld σ := ⟨w.out,R.closedir w.env fatDir⟩

/-- The loop over the entries of a directory; an empty name ends it. -/
def streamEntries (inside : Path → Path → StreamWorld σ → Bool × StreamWorld σ) (fatDir tarPrefix : Path) :
    List FilInfo → StreamWorld σ → Bool × StreamWorld σ
  | [], w =>
    match R.readdir w.env fatDir with
    | (.error _,env) => (false,closeDir R fatDir ⟨w.out,env⟩)
    | (.ok (),env) => (true,closeDir R fatDir ⟨w.out,env⟩)
  | e :: entries, w =>
    match R.readdir w.env fatDir with
    | (.error _,env) => (false,closeDir R fatDir ⟨w.out,env⟩)
    | (.ok (),env) =>
      if e.fname = [] then (true,closeDir R fatDir ⟨w.out,env⟩)
      else if isDot e.fname then streamEntries inside fatDir tarPrefix entries ⟨w.out,env⟩
      else
        match streamEntry R inside fatDir tarPrefix e ⟨w.out,env⟩ with
        | (false,w) => (false,closeDir R fatDir w)
        | (true,w) => streamEntries inside fatDir tarPrefix entries w

/-- `stream_dir_recursive`, for directories within so many levels. -/
def streamDir : (levels : ℕ) → (fatDir tarPrefix : Path) → StreamWorld σ → Bool × StreamWorld σ
  | 0, _, _, w => (false,w)
  | levels + 1, fatDir, tarPrefix, w =>
    match R.opendir w.env fatDir with
    | (.error _,env) => (false,⟨w.out,env⟩)
    | (.ok entries,env) => streamEntries R (streamDir levels) fatDir tarPrefix entries ⟨w.out,env⟩

/-- `tar_stream_dir_fatfs`. Every level makes the path longer, and `tarPathMax` bounds it. -/
def tarStreamDir (dirPath : Path) (w : StreamWorld σ) : Bool × StreamWorld σ :=
  match streamDir R (tarPathMax + 1) dirPath [] w with
  | (false,w) => (false,w)
  | (true,w) => writeAll R (zeros (tarBlock * 2)) w

/-! ## The levels are enough -/

theorem joinUnder_some {base path : Path} {rel : Name} {outSize : ℕ} (h : joinUnder base rel outSize = some path) :
    path = asParent base ++ rel ∧ base.length + rel.length + 2 ≤ outSize := by
  unfold joinUnder at h
  split at h
  · cases h
  · cases h
    exact ⟨rfl,by omega⟩

theorem asParent_length (base : Path) : base.length ≤ (asParent base).length ∧ (asParent base).length ≤ base.length + 1 := by
  unfold asParent
  split
  · exact ⟨le_rfl,Nat.le_succ _⟩
  · simp

theorem streamEntries_congr {inside inside' : Path → Path → StreamWorld σ → Bool × StreamWorld σ} {fatDir tarPrefix : Path}
    (h : ∀ path, fatDir.length < path.length → path.length < tarPathMax → inside path = inside' path) (entries : List FilInfo)
    (w : StreamWorld σ) :
    streamEntries R inside fatDir tarPrefix entries w = streamEntries R inside' fatDir tarPrefix entries w := by
  induction entries generalizing w with
  | nil => rfl
  | cons e entries ih =>
    have hentry : ∀ w : StreamWorld σ, e.fname ≠ [] →
        streamEntry R inside fatDir tarPrefix e w = streamEntry R inside' fatDir tarPrefix e w := by
      intro w hne
      unfold streamEntry
      dsimp only
      cases hjoin : joinUnder fatDir (e.fname.take 255) tarPathMax with
      | none => rfl
      | some childFat =>
        obtain ⟨hpath,hroom⟩ := joinUnder_some hjoin
        have hbase := asParent_length fatDir
        have hname : 0 < (e.fname.take 255).length := by
          have := List.length_pos_of_ne_nil hne
          rw [List.length_take]
          omega
        have hlength : childFat.length = (asParent fatDir).length + (e.fname.take 255).length := by
          rw [hpath, List.length_append]
        cases childTar tarPrefix (e.fname.take 255) with
        | none => rfl
        | some childTar =>
          dsimp only
          rw [h childFat (by omega) (by omega)]
    unfold streamEntries
    split
    · rfl
    · split_ifs with hempty hdot
      · rfl
      · exact ih _
      · rw [hentry _ hempty]
        split
        · rfl
        · exact ih _

/-- More levels than the room left in a path make no difference. -/
theorem streamDir_levels {levels levels' : ℕ} {fatDir : Path} (h : 0 < levels) (h' : 0 < levels')
    (hroom : tarPathMax < levels + fatDir.length) (hroom' : tarPathMax < levels' + fatDir.length) :
    streamDir R levels fatDir = streamDir R levels' fatDir := by
  induction levels generalizing levels' fatDir with
  | zero => cases h
  | succ levels ih =>
    cases levels' with
    | zero => cases h'
    | succ levels' =>
      funext tarPrefix w
      unfold streamDir
      split
      · rfl
      · apply streamEntries_congr
        intro path hlonger hbound
        exact ih (by omega) (by omega) (by omega) (by omega)

end

/-! ## Directory trees -/

/-- What FatFs stores: the data of files, directories of long names. -/
abbrev FatTree := Tree Name (List UInt8)
abbrev FatItem := Item Name (List UInt8)

/-- A long name: no control character, none of `"*/:<>?\|`, and no blank or dot at its end. -/
def LegalName (name : Name) : Prop :=
  name ≠ [] ∧ (∀ c ∈ name, 32 ≤ c ∧ c ∉ ([34,42,47,58,60,62,63,92,124] : List UInt8)) ∧
    name.getLast? ≠ some 32 ∧ name.getLast? ≠ some 46

instance (name : Name) : Decidable (LegalName name) := by unfold LegalName; infer_instance

/-- The tree under a directory of a FAT volume whose names compare by `fold`. The sizes of
files are 32-bit. -/
structure FatDirectory (fold : Name → Name) where
  entries : List (Name × FatTree)
  distinct : DistinctList fold entries
  legal : ∀ item ∈ itemsList [] entries, LegalName item.name
  small : ∀ item ∈ itemsList [] entries, ∀ data, item.data = some data → data.length < 2^32

/-- The names of directories with separators behind them. -/
def frontText (front : List Name) : Path := front.flatMap (· ++ [slash])

/-- The name of an object in the archive; a directory's ends with a separator. -/
def itemText (item : FatItem) : Path :=
  frontText item.front ++ item.name ++ (if item.data = none then [slash] else [])

/-- The part of the archive for an object. -/
def itemBytes (item : FatItem) : List UInt8 :=
  match item.data with
  | none => fatTarHeader (itemText item) typeDir 0 0
  | some data =>
    fatTarHeader (itemText item) typeFile data.length 0 ++
      (data ++ zeros ((tarBlock - data.length % tarBlock) % tarBlock))

/-- The archive of the objects of a tree. -/
def archiveBytes (entries : List (Name × FatTree)) : List UInt8 := (itemsList [] entries).flatMap itemBytes

/-- What is found under a path of a walk that begins at `root`. -/
inductive FoundAt (root : Path) (top : List (Name × FatTree)) : Path → FatTree → Prop where
  | root : FoundAt root top root (.dir top)
  | child {path : Path} {entries : List (Name × FatTree)} {name : Name} {tree : FatTree}
      (parent : FoundAt root top path (.dir entries)) (entry : (name,tree) ∈ entries) :
      FoundAt root top (asParent path ++ name) tree

def treeStat : FatTree → FatStat
  | .file data => ⟨false,data.length⟩
  | .dir _ => ⟨true,0⟩

def treeInfo (entry : Name × FatTree) : FilInfo := ⟨entry.1,(treeStat entry.2).directory⟩

/-- FatFs shows a tree that does not change: where a call succeeds, the answer is the tree's.
Entries for a directory itself and the one above it may come in a listing. -/
structure ShowsTree {σ : Type} (R : StreamOutside σ) (root : Path) (top : List (Name × FatTree)) : Prop where
  stat : ∀ s path tree i, FoundAt root top path tree → (R.stat s path).1 = .ok i → i = treeStat tree
  read : ∀ s path data offset length bytes, FoundAt root top path (.file data) →
    (R.read s path offset length).1 = .ok bytes → bytes = (data.drop offset).take length
  opendir : ∀ s path entries l, FoundAt root top path (.dir entries) → (R.opendir s path).1 = .ok l →
    l.filter (fun e => !isDot e.fname) = entries.map treeInfo

/-! ## What is written -/

section
variable {σ : Type} {R : StreamOutside σ}

theorem writeTurns_out {turns : ℕ} {data : List UInt8} {w w' : StreamWorld σ} (h : writeTurns R turns data w = (true,w')) :
    w'.out = w.out ++ data := by
  induction turns generalizing data w with
  | zero =>
    cases data with
    | nil =>
      cases h
      exact (List.append_nil _).symm
    | cons b data => cases h
  | succ turns ih =>
    cases data with
    | nil =>
      cases h
      exact (List.append_nil _).symm
    | cons b data =>
      unfold writeTurns at h
      dsimp only at h
      split_ifs at h with hnone
      · cases h
      · rw [ih h, List.append_assoc, List.take_append_drop]

theorem writeAll_out {data : List UInt8} {w w' : StreamWorld σ} (h : writeAll R data w = (true,w')) :
    w'.out = w.out ++ data := writeTurns_out h

/-- What is copied is the rest of the file, as long as reading it stops nowhere else. -/
theorem copyOut_out {path : Path} {data : List UInt8}
    (hread : ∀ s offset length bytes, (R.read s path offset length).1 = .ok bytes → bytes = (data.drop offset).take length)
    {turns remaining offset : ℕ} {w w' : StreamWorld σ} (hleft : offset + remaining = data.length)
    (h : copyOut R path turns remaining offset w = (true,w')) : w'.out = w.out ++ data.drop offset := by
  induction turns generalizing remaining offset w with
  | zero =>
    cases remaining with
    | zero =>
      cases h
      rw [List.drop_eq_nil_of_le (by omega), List.append_nil]
    | succ remaining => cases h
  | succ turns ih =>
    cases remaining with
    | zero =>
      cases h
      rw [List.drop_eq_nil_of_le (by omega), List.append_nil]
    | succ remaining =>
      unfold copyOut at h
      split at h
      · cases h
      · rename_i bytes env hbytes
        have hdata := hread w.env offset (min (remaining + 1) 1024) bytes (by rw [hbytes])
        have hlength : bytes.length = min (remaining + 1) 1024 := by
          rw [hdata, List.length_take, List.length_drop]
          omega
        have hsome : bytes ≠ [] := by
          rw [← List.length_pos_iff, hlength]
          omega
        rw [if_neg hsome] at h
        split at h
        · cases h
        · rename_i w1 hwritten
          have hout := writeAll_out hwritten
          have hrest := ih (by omega) h
          have hdrop : data.drop offset = bytes ++ data.drop (offset + bytes.length) := by
            conv_lhs => rw [← List.take_append_drop (min (remaining + 1) 1024) (data.drop offset)]
            rw [← hdata, List.drop_drop, hlength]
          rw [hrest, hout, List.append_assoc, ← hdrop]

/-- A file is written with its header and filled up to blocks. -/
theorem streamFile_out {root path : Path} {top : List (Name × FatTree)} (hshows : ShowsTree R root top) {tree : FatTree}
    (hfound : FoundAt root top path tree) {tarName : Path} {mtime : ℕ} {w w' : StreamWorld σ}
    (h : streamFile R path tarName mtime w = (true,w')) :
    ∃ data, tree = .file data ∧ tarName.length < 100 ∧ w'.out = w.out ++ (fatTarHeader tarName typeFile data.length mtime ++
      (data ++ zeros ((tarBlock - data.length % tarBlock) % tarBlock))) := by
  unfold streamFile at h
  split at h
  · cases h
  rename_i info env hstat
  have hinfo := hshows.stat w.env path tree info hfound (by rw [hstat])
  split_ifs at h with hrefused
  · cases h
  cases tree with
  | dir entries =>
    subst hinfo
    exact absurd (Or.inl rfl) hrefused
  | file data =>
    subst hinfo
    refine ⟨data,rfl,by omega,?_⟩
    split at h
    · cases h
    rename_i w1 hheader
    split at h
    · cases h
    split at h
    · cases h
    rename_i w2 hcopied
    have hread := fun s offset length bytes => hshows.read s path data offset length bytes hfound
    have hcopy := copyOut_out hread (Nat.zero_add data.length) hcopied
    have hpad := writeAll_out h
    have hfirst := writeAll_out hheader
    simp only [treeStat, closeStreamed, List.drop_zero] at hcopy hpad hfirst
    rw [hpad, hcopy, hfirst]
    simp only [List.append_assoc]

/-! ### Names -/

theorem LegalName.no_separator {name : Name} (h : LegalName name) : ∀ c ∈ name, isSeparator c = false := by
  intro c hc
  have hnot := (h.2.1 c hc).2
  simp only [List.mem_cons, List.not_mem_nil, or_false, not_or] at hnot
  simp [isSeparator, slash, backslash, hnot]

theorem LegalName.isName {name : Name} (h : LegalName name) : IsName name := ⟨h.1,h.no_separator⟩

theorem LegalName.last_ne_slash {name : Name} (h : LegalName name) : name.getLast? ≠ some slash := by
  intro hlast
  have hsep := h.no_separator slash (List.mem_of_getLast? hlast)
  simp [isSeparator] at hsep

theorem LegalName.not_dot {name : Name} (h : LegalName name) : isDot name = false := by
  have hlast := h.2.2.2
  rw [isDot, Bool.or_eq_false_iff]
  constructor
  · rw [beq_eq_false_iff_ne]
    rintro rfl
    exact hlast rfl
  · rw [beq_eq_false_iff_ne]
    rintro rfl
    exact hlast rfl

theorem asParent_name {name : Name} (h : LegalName name) (before : Path) :
    asParent (before ++ name) = before ++ (name ++ [slash]) := by
  have hne : before ++ name ≠ [] := by simp [h.1]
  have hlast : (before ++ name).getLast? ≠ some slash := by
    rw [List.getLast?_append_of_ne_nil _ h.1]
    exact h.last_ne_slash
  rw [asParent, if_neg (not_or.mpr ⟨hne,hlast⟩), List.append_assoc]

theorem frontText_concat (front : List Name) (name : Name) :
    frontText (front ++ [name]) = frontText front ++ (name ++ [slash]) := by
  simp [frontText]

/-- The name of a child in the archive is what its place in the tree says. -/
theorem childTar_some {tarPrefix path : Path} {front : List Name} {name : Name}
    (hfront : asParent tarPrefix = frontText front) (hname : LegalName name) (hshort : name.length < 255)
    (h : childTar tarPrefix name = some path) :
    path = frontText front ++ name ∧ asParent path = frontText (front ++ [name]) := by
  have hpath : path = frontText front ++ name := by
    unfold childTar at h
    split at h
    · rename_i hnil
      cases h
      rw [← hfront, hnil, List.take_of_length_le (Nat.le_of_lt hshort)]
      rfl
    · rw [(joinUnder_some h).1, hfront]
  refine ⟨hpath,?_⟩
  rw [hpath, asParent_name hname, frontText_concat]

/-- The first object of a listing goes by the name of the first entry. -/
theorem first_legal {front : List Name} {name : Name} {tree : FatTree} {entries : List (Name × FatTree)}
    (h : ∀ item ∈ itemsList front ((name,tree) :: entries), LegalName item.name) : LegalName name := by
  cases tree with
  | file data => exact h ⟨front,name,some data⟩ (by simp [itemsList, itemsPair, itemsNode])
  | dir inner => exact h ⟨front,name,none⟩ (by simp [itemsList, itemsPair, itemsNode])

/-! ### Directories -/

/-- The part of the archive for these objects is written, and their names are short. -/
structure Streamed (items : List FatItem) (w w' : StreamWorld σ) : Prop where
  out : w'.out = w.out ++ items.flatMap itemBytes
  short : ∀ item ∈ items, (itemText item).length < 100

theorem Streamed.append {items items' : List FatItem} {w w' w'' : StreamWorld σ} (h : Streamed items w w')
    (h' : Streamed items' w' w'') : Streamed (items ++ items') w w'' := by
  constructor
  · rw [h'.out, h.out, List.flatMap_append, List.append_assoc]
  · intro item hitem
    rcases List.mem_append.mp hitem with hitem | hitem
    · exact h.short item hitem
    · exact h'.short item hitem

variable {root : Path} {top : List (Name × FatTree)} {inside : Path → Path → StreamWorld σ → Bool × StreamWorld σ}

/-- What streaming a directory should do. -/
def StreamsDirs (root : Path) (top : List (Name × FatTree)) (inside : Path → Path → StreamWorld σ → Bool × StreamWorld σ) :
    Prop :=
  ∀ path tarPrefix front entries w w', FoundAt root top path (.dir entries) → asParent tarPrefix = frontText front →
    (∀ item ∈ itemsList front entries, LegalName item.name) → inside path tarPrefix w = (true,w') →
    Streamed (itemsList front entries) w w'

theorem streamEntry_streamed (hshows : ShowsTree R root top) (hinside : StreamsDirs root top inside) {path tarPrefix : Path}
    {front : List Name} {entries : List (Name × FatTree)} {entry : Name × FatTree}
    (hfound : FoundAt root top path (.dir entries)) (hentry : entry ∈ entries)
    (hfront : asParent tarPrefix = frontText front) (hlegal : ∀ item ∈ itemsPair front entry, LegalName item.name)
    {w w' : StreamWorld σ} (h : streamEntry R inside path tarPrefix (treeInfo entry) w = (true,w')) :
    Streamed (itemsPair front entry) w w' := by
  obtain ⟨name,tree⟩ := entry
  have hname : LegalName name := @first_legal front name tree [] (by simpa [itemsList] using hlegal)
  unfold streamEntry at h
  simp only [treeInfo] at h
  split at h
  · rename_i childFat tarName hjoin hchild
    obtain ⟨hpath,hroom⟩ := joinUnder_some hjoin
    have hshort : name.length < 255 := by
      rw [List.length_take, tarPathMax] at hroom
      omega
    rw [List.take_of_length_le (Nat.le_of_lt hshort)] at hchild hpath
    obtain ⟨htext,hparent⟩ := childTar_some hfront hname hshort hchild
    have hreached : FoundAt root top childFat tree := by
      rw [hpath]
      exact .child hfound hentry
    cases tree with
    | file data =>
      obtain ⟨data',hdata,hlength,hout⟩ := streamFile_out hshows hreached h
      cases hdata
      have hitem : itemText ⟨front,name,some data⟩ = tarName := by simp [itemText, htext]
      rw [itemsPair, itemsNode]
      constructor
      · rw [hout, List.flatMap_singleton, itemBytes]
        simp only [hitem]
      · intro item hmem
        rw [List.mem_singleton.mp hmem, hitem]
        exact hlength
    | dir inner =>
      have hitem : itemText ⟨front,name,none⟩ = tarName ++ [slash] := by simp [itemText, htext]
      simp only [treeStat, if_true] at h
      split_ifs at h with hlong
      · cases h
      rw [List.length_take, not_le] at hlong
      have hlength : (tarName ++ [slash]).length < 100 := by omega
      rw [List.take_of_length_le (by omega)] at h
      split at h
      · cases h
      rename_i w1 hheader
      rw [itemsPair, itemsNode] at hlegal ⊢
      have hdeep := fun item hmem => hlegal item (List.mem_cons_of_mem _ hmem)
      have hhead : Streamed [⟨front,name,none⟩] w w1 := by
        constructor
        · rw [writeAll_out hheader, List.flatMap_singleton, itemBytes, hitem]
        · intro item hmem
          rw [List.mem_singleton.mp hmem, hitem]
          exact hlength
      exact hhead.append (hinside childFat tarName _ inner w1 w' hreached hparent hdeep h)
  · cases h

/-- The loop over what is left of a listing. -/
theorem streamEntries_streamed (hshows : ShowsTree R root top) (hinside : StreamsDirs root top inside) {path tarPrefix : Path}
    {front : List Name} {entries : List (Name × FatTree)} (hfound : FoundAt root top path (.dir entries))
    (hfront : asParent tarPrefix = frontText front) {listing : List FilInfo} {left : List (Name × FatTree)}
    (hleft : ∀ entry ∈ left, entry ∈ entries) (hlisting : listing.filter (fun e => !isDot e.fname) = left.map treeInfo)
    (hlegal : ∀ item ∈ itemsList front left, LegalName item.name) {w w' : StreamWorld σ}
    (h : streamEntries R inside path tarPrefix listing w = (true,w')) : Streamed (itemsList front left) w w' := by
  induction listing generalizing left w with
  | nil =>
    rw [List.filter_nil] at hlisting
    cases List.map_eq_nil_iff.mp hlisting.symm
    unfold streamEntries at h
    split at h
    · cases h
    · cases h
      exact ⟨(List.append_nil _).symm,fun item hitem => absurd hitem List.not_mem_nil⟩
  | cons e listing ih =>
    unfold streamEntries at h
    split at h
    · cases h
    rename_i env _
    by_cases hdot : isDot e.fname = true
    · have hne : e.fname ≠ [] := by
        intro hnil
        rw [hnil] at hdot
        cases hdot
      rw [if_neg hne, if_pos hdot] at h
      rw [List.filter_cons_of_neg (by simp [hdot])] at hlisting
      have hrest := ih hleft hlisting hlegal h
      exact ⟨hrest.out,hrest.short⟩
    · rw [List.filter_cons_of_pos (by simp [hdot])] at hlisting
      cases left with
      | nil => cases hlisting
      | cons entry left =>
        rw [List.map_cons, List.cons.injEq] at hlisting
        obtain ⟨rfl,hlisting⟩ := hlisting
        have hne : (treeInfo entry).fname ≠ [] := (first_legal hlegal).1
        rw [if_neg hne, if_neg hdot] at h
        split at h
        · cases h
        rename_i w1 hw1
        rw [itemsList] at hlegal ⊢
        have hfirst := streamEntry_streamed hshows hinside hfound (hleft entry List.mem_cons_self) hfront
          (fun item hitem => hlegal item (List.mem_append_left _ hitem)) hw1
        have hrest := ih (fun other hother => hleft other (List.mem_cons_of_mem _ hother)) hlisting
          (fun item hitem => hlegal item (List.mem_append_right _ hitem)) h
        exact Streamed.append ⟨hfirst.out,hfirst.short⟩ hrest

theorem streamDir_streamed (hshows : ShowsTree R root top) (levels : ℕ) : StreamsDirs root top (streamDir R levels) := by
  induction levels with
  | zero =>
    intro path tarPrefix front entries w w' _ _ _ h
    cases h
  | succ levels ih =>
    intro path tarPrefix front entries w w' hfound hfront hlegal h
    unfold streamDir at h
    split at h
    · cases h
    rename_i listing env hlisting
    have hlisted := hshows.opendir w.env path entries listing hfound (by rw [hlisting])
    have hstreamed := streamEntries_streamed hshows ih hfound hfront (fun _ hentry => hentry) hlisted hlegal h
    exact ⟨hstreamed.out,hstreamed.short⟩

/-- After a success the archive of the tree has been written, and no name in it is too long. -/
theorem tarStreamDir_streamed {fold : Name → Name} {tree : FatDirectory fold} (hshows : ShowsTree R root tree.entries)
    {w w' : StreamWorld σ} (h : tarStreamDir R root w = (true,w')) :
    w'.out = w.out ++ (archiveBytes tree.entries ++ zeros (tarBlock * 2)) ∧
      ∀ item ∈ itemsList [] tree.entries, (itemText item).length < 100 := by
  unfold tarStreamDir at h
  split at h
  · cases h
  rename_i w1 hw1
  have hstreamed := streamDir_streamed hshows _ root [] [] tree.entries w w1 .root rfl tree.legal hw1
  refine ⟨?_,hstreamed.short⟩
  rw [writeAll_out h, hstreamed.out, List.append_assoc]
  rfl

end

end Bvstk.Fat
