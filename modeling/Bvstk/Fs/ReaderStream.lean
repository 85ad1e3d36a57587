import Bvstk.Fs.ReaderFrame
import Bvstk.Fs.Tree
import Bvstk.Fs.TarEntry

/-! # The reader delivers the stream

Over a backend that serves a tree, every state of a reader stands for what is left of the
stream of that tree: what is staged, what is left of the open file, and the walk through the
directories that are open. A read takes from the front of it.
-/
namespace Bvstk.Fs
open BlockStream

/-! ## The walk -/

/-- The part of a directory that has not been walked. -/
structure FsLevel where
  path : Path
  left : List (FsName × FsNode)

/-- What is left of the walk, the innermost directory first. -/
def levelsLeft (deep : Bool) : List FsLevel → Feed FsEntry FsError
  | [] => ⟨[],none⟩
  | level :: levels =>
    (walkEntries deep level.path level.left (maxDepth - (levels.length + 1))).append (levelsLeft deep levels)

section
variable {β H : Type} (P : FsBackend β H) {root : Path} {tree : FsNode}
  {holds : β → FsOpened H → Prop}

/-- The open directories are these levels, around the entry at `path`. -/
def Stacked (root : Path) (tree : FsNode) (s : FsOpened H) : Path → List (FsDir H) → List FsLevel → Prop
  | _, [], [] => True
  | path, dir :: dirs, level :: levels =>
    level.path <+: path ∧ dir.pathLen = level.path.length ∧ s.dirs dir.handle.value = some level.left ∧
      (∀ outer ∈ dirs, outer.handle.value ≠ dir.handle.value) ∧
      (∃ node, FsNode.At root tree level.path node ∧ ∀ entry ∈ level.left, entry ∈ node.entries) ∧
      Stacked root tree s level.path dirs levels
  | _, _, _ => False

theorem Stacked.length {s : FsOpened H} {path : Path} {dirs : List (FsDir H)} {levels : List FsLevel}
    (h : Stacked root tree s path dirs levels) : dirs.length = levels.length := by
  induction dirs generalizing path levels with
  | nil =>
    cases levels with
    | nil => rfl
    | cons level levels => exact h.elim
  | cons dir dirs ih =>
    cases levels with
    | nil => exact h.elim
    | cons level levels => simp [ih h.2.2.2.2.2]

/-- The levels hold around anything under the innermost. -/
theorem Stacked.under {s : FsOpened H} {path path' : Path} {dirs : List (FsDir H)} {levels : List FsLevel}
    (h : Stacked root tree s path dirs levels) (hunder : path <+: path') :
    Stacked root tree s path' dirs levels := by
  cases dirs with
  | nil => cases levels <;> exact h
  | cons dir dirs =>
    cases levels with
    | nil => exact h
    | cons level levels => exact ⟨h.1.trans hunder,h.2⟩

/-- Only the open directories matter. -/
theorem Stacked.congr {s s' : FsOpened H} {path : Path} {dirs : List (FsDir H)} {levels : List FsLevel}
    (h : Stacked root tree s path dirs levels)
    (hdirs : ∀ dir ∈ dirs, s'.dirs dir.handle.value = s.dirs dir.handle.value) :
    Stacked root tree s' path dirs levels := by
  induction dirs generalizing path levels with
  | nil => cases levels <;> exact h
  | cons dir dirs ih =>
    cases levels with
    | nil => exact h
    | cons level levels =>
      obtain ⟨hpath,hlen,hleft,hfresh,hnode,hrest⟩ := h
      exact ⟨hpath,hlen,(hdirs dir (by simp)).trans hleft,hfresh,hnode,
        ih hrest fun d hd => hdirs d (List.mem_cons_of_mem _ hd)⟩

theorem Stacked.opened {s : FsOpened H} {path : Path} {dirs : List (FsDir H)} {levels : List FsLevel}
    (h : Stacked root tree s path dirs levels) {dir : FsDir H} (hdir : dir ∈ dirs) :
    s.dirs dir.handle.value ≠ none := by
  induction dirs generalizing path levels with
  | nil => cases hdir
  | cons outer dirs ih =>
    cases levels with
    | nil => exact h.elim
    | cons level levels =>
      cases hdir with
      | head =>
        rw [h.2.2.1]
        exact Option.some_ne_none _
      | tail _ hdir => exact ih h.2.2.2.2.2 hdir

theorem childPath_of_entryPath {path name path' : Path} (h : entryPath path name = .ok path') :
    path' = childPath path name := by
  unfold entryPath at h
  split at h
  · cases h
  · split at h
    · cases h
    · cases h
      rfl

theorem under_childPath (path name : Path) : path <+: childPath path name := by
  unfold childPath parentPath
  split
  · exact List.prefix_append _ _
  · rw [List.append_assoc]
    exact List.prefix_append _ _

/-- How the reader goes on with an entry whose path it takes. -/
def entered (r : FsReader H) (w : FsWorld β H) : Option FsError × FsReader H × FsWorld β H :=
  if r.enters = true then
    if r.dirs.length = maxDepth then (some .range,r,w)
    else
      match w.dirOpen P r.slot r.path with
      | (.error e,w) => (some e,r,w)
      | (.ok dir,w) => (none,{ r with dirs := ⟨dir,r.path.length⟩ :: r.dirs },w)
  else if r.info.type ≠ entryFile ∧ r.info.type ≠ entryDir then (some .unsupported,r,w)
  else (none,r,w)

theorem entered_plain {r : FsReader H} (w : FsWorld β H) (henters : r.enters = false)
    (htype : r.info.type = entryFile ∨ r.info.type = entryDir) : entered P r w = (none,r,w) := by
  unfold entered
  rw [henters, if_neg (by simp), if_neg]
  rintro ⟨hfile,hdir⟩
  exact htype.elim hfile hdir

theorem entered_other {r : FsReader H} (w : FsWorld β H) (htype : r.info.type ≠ entryFile ∧ r.info.type ≠ entryDir) :
    entered P r w = (some .unsupported,r,w) := by
  have henters : r.enters = false := decide_eq_false fun h => htype.2 h.1
  unfold entered
  rw [henters, if_neg (by simp), if_pos htype]

theorem enterEntry_eq (r : FsReader H) (name : Path) (w : FsWorld β H) :
    enterEntry P r name w =
      match entryPath r.path name with
      | .error e => (some e,r,w)
      | .ok path => entered P { r with path := path } w := by
  unfold enterEntry entryPath
  by_cases hname : validComponent name = false
  · rw [if_pos hname, if_pos hname]
  · rw [if_neg hname, if_neg hname]
    have hlength : (childPath r.path name).length = (parentPath r.path).length + name.length :=
      List.length_append
    by_cases hseparated : r.path = [] ∨ r.path.getLast? = some slash
    · have hparent : parentPath r.path = r.path := if_pos hseparated
      rw [if_neg (fun h => h.1 hseparated), if_pos hseparated]
      by_cases hlong : pathCapacity ≤ r.path.length + name.length
      · have hfull : pathCapacity ≤ (childPath r.path name).length := by rw [hlength, hparent]; exact hlong
        rw [if_pos hlong, if_pos (.inr hfull)]
      · have hroom : ¬(pathCapacity ≤ (parentPath r.path).length ∨ pathCapacity ≤ (childPath r.path name).length) := by
          rw [hlength, hparent]
          omega
        rw [if_neg hlong, if_neg hroom]
        simp only [childPath, hparent]
        rfl
    · have hparent : parentPath r.path = r.path ++ [slash] := if_neg hseparated
      have hlen : (parentPath r.path).length = r.path.length + 1 := by rw [hparent]; simp
      rw [if_neg hseparated, ← hparent]
      by_cases hroom : pathCapacity ≤ r.path.length + 1
      · rw [if_pos ⟨hseparated,hroom⟩, if_pos (.inl (hlen ▸ hroom))]
      · rw [if_neg (fun h => hroom h.2)]
        by_cases hlong : pathCapacity ≤ (parentPath r.path).length + name.length
        · rw [if_pos hlong, if_pos (.inr (hlength ▸ hlong))]
        · have hfits : ¬(pathCapacity ≤ (parentPath r.path).length ∨ pathCapacity ≤ (childPath r.path name).length) := by
            rw [hlength]
            omega
          rw [if_neg hlong, if_neg hfits]
          rfl

/-- What `nextEntry` does when this is left of the walk. -/
inductive Walked (holds : β → FsOpened H → Prop) (root : Path) (tree : FsNode) (deep : Bool) (r : FsReader H) :
    Feed FsEntry FsError → Except FsError Bool × FsReader H × FsWorld β H → Prop where
  | entry (entry : FsEntry) (dirs : List (FsDir H)) (levels : List FsLevel) {s : FsOpened H} {w : FsWorld β H}
      (held : holds w.env s) (found : FsNode.At root tree entry.path entry.node)
      (plain : entry.node.info.type = entryFile ∨ entry.node.info.type = entryDir)
      (stacked : Stacked root tree s entry.path dirs levels) (shallow : levels.length ≤ maxDepth) :
      Walked holds root tree deep r ((levelsLeft deep levels).after [entry])
        (.ok false,{ r with path := entry.path, info := entry.node.info, dirs := dirs },w)
  | done {path : Path} {info : FsInfo} {s : FsOpened H} {w : FsWorld β H} (held : holds w.env s) :
      Walked holds root tree deep r ⟨[],none⟩ (.ok true,{ r with path := path, info := info, dirs := [] },w)
  | failed {e : FsError} {r' : FsReader H} {w : FsWorld β H} :
      Walked holds root tree deep r ⟨[],some e⟩ (.error e,r',w)

theorem Walked.congr {deep : Bool} {r : FsReader H} {path : Path} {info : FsInfo} {dirs : List (FsDir H)}
    {feed : Feed FsEntry FsError} {out : Except FsError Bool × FsReader H × FsWorld β H}
    (h : Walked holds root tree deep { r with path := path, info := info, dirs := dirs } feed out) :
    Walked holds root tree deep r feed out := by
  cases h with
  | entry entry dirs levels held found plain stacked shallow => exact .entry entry dirs levels held found plain stacked shallow
  | done held => exact .done held
  | failed => exact .failed

/-- The walk goes on with an entry it has found. -/
theorem walked_entered [DecidableEq H] {P : FsBackend β H} (serves : Serves P root tree holds)
    {r : FsReader H} {w : FsWorld β H} {s : FsOpened H} {levels : List FsLevel} {node : FsNode}
    (hheld : holds w.env s) (hstacked : Stacked root tree s r.path r.dirs levels) (hshallow : levels.length ≤ maxDepth)
    (hfound : FsNode.At root tree r.path node) :
    Walked holds root tree (walksDeep r.kind r.flags) r
      ((walkNode (walksDeep r.kind r.flags) r.path node (maxDepth - levels.length)).append
        (levelsLeft (walksDeep r.kind r.flags) levels))
      (match entered P { r with info := node.info } w with
      | (some e,r,w) => (.error e,r,w)
      | (none,r,w) => (.ok false,r,w)) := by
  generalize hd : walksDeep r.kind r.flags = deep
  have henters : ({ r with info := node.info } : FsReader H).enters = (decide (node.info.type = entryDir) && deep) := by
    rw [← hd]
    exact Bool.decide_and _ _
  cases node with
  | other info special =>
    rw [entered_other P w special]
    exact .failed
  | file stamp attributes content fits =>
    rw [entered_plain P w henters (.inl rfl)]
    exact .entry ⟨r.path,_⟩ r.dirs levels hheld hfound (.inl rfl) hstacked hshallow
  | dir size stamp attributes entries =>
    cases deep with
    | false =>
      rw [entered_plain P w (henters.trans (Bool.and_false _)) (.inr rfl)]
      exact .entry ⟨r.path,_⟩ r.dirs levels hheld hfound (.inr rfl) hstacked hshallow
    | true =>
      have hdepth : r.dirs.length = levels.length := hstacked.length
      unfold entered
      rw [if_pos (henters.trans (by rfl))]
      by_cases hfull : levels.length = maxDepth
      · rw [if_pos (hdepth.trans hfull), hfull, Nat.sub_self]
        exact .failed
      · rw [if_neg (fun h => hfull (hdepth.symm.trans h))]
        obtain ⟨dir,b',hopen,hfresh,hheld'⟩ := serves.dirOpen hheld hfound rfl
        have hworld : w.dirOpen P r.slot r.path = (.ok ⟨r.slot,w.calls.length,dir⟩,
            ⟨b',w.calls ++ [.dirOpen r.path (some ⟨r.slot,w.calls.length,dir⟩)]⟩) := by
          simp only [FsWorld.dirOpen, hopen]
        obtain ⟨room,hroom⟩ : ∃ room, maxDepth - levels.length = room + 1 :=
          ⟨maxDepth - levels.length - 1,by omega⟩
        have hnext : maxDepth - (levels.length + 1) = room := by omega
        simp only [hworld, hroom, walkNode]
        have hstill : Stacked root tree (s.setDir dir (some entries)) r.path
            (⟨⟨r.slot,w.calls.length,dir⟩,r.path.length⟩ :: r.dirs) (⟨r.path,entries⟩ :: levels) := by
          have hother : ∀ outer ∈ r.dirs, outer.handle.value ≠ dir := by
            rintro outer houter rfl
            exact hstacked.opened houter hfresh
          refine ⟨List.prefix_rfl,rfl,Function.update_self ..,hother,⟨_,hfound,fun entry hentry => hentry⟩,?_⟩
          exact hstacked.congr fun outer houter => Function.update_of_ne (hother outer houter) _ _
        rw [Feed.after_append, ← hnext]
        exact .entry ⟨r.path,_⟩ _ (⟨r.path,entries⟩ :: levels) hheld' hfound (.inr rfl) hstill (by simp; omega)

/-- The walk takes the next entry of the tree. -/
theorem walked_nextEntry [DecidableEq H] {P : FsBackend β H} (serves : Serves P root tree holds)
    {r : FsReader H} {w : FsWorld β H} {s : FsOpened H} {dirs : List (FsDir H)} {levels : List FsLevel}
    (hheld : holds w.env s) (hstacked : Stacked root tree s r.path dirs levels) (hshallow : levels.length ≤ maxDepth) :
    Walked holds root tree (walksDeep r.kind r.flags) r (levelsLeft (walksDeep r.kind r.flags) levels)
      (nextEntry P dirs r w) := by
  induction dirs generalizing r w s levels with
  | nil =>
    cases levels with
    | nil => exact .done hheld
    | cons level levels => exact hstacked.elim
  | cons dir dirs ih =>
    cases levels with
    | nil => exact hstacked.elim
    | cons level levels =>
      obtain ⟨hpath,hlen,hopen,hfresh,⟨parent,hparent,hentries⟩,hrest⟩ := hstacked
      have htake : r.path.take dir.pathLen = level.path := by
        rw [hlen]
        exact (List.prefix_iff_eq_take.mp hpath).symm
      unfold nextEntry
      simp only [htake]
      obtain ⟨path,left⟩ := level
      cases left with
      | nil =>
        -- the directory is at its end
        obtain ⟨info,b',hread,hheld'⟩ := serves.dirEnd hheld hopen
        have hworld : w.dirRead P dir.handle = (.ok ([],info),⟨b',w.calls ++ [.dirRead dir.handle]⟩) := by
          simp only [FsWorld.dirRead, hread]
        rw [hworld]
        simp only [if_pos]
        have hclosed := serves.dirClose hheld' hopen
        have hkept : Stacked root tree (s.setDir dir.handle.value none) path dirs levels := by
          refine hrest.congr fun outer houter => ?_
          exact Function.update_of_ne (hfresh outer houter) _ _
        exact (ih (w := FsWorld.dirClose P ⟨b',w.calls ++ [.dirRead dir.handle]⟩ dir.handle) hclosed hkept
          (Nat.le_of_succ_le hshallow)).congr
      | cons entry left =>
        obtain ⟨name,node⟩ := entry
        obtain ⟨b',hread,hheld'⟩ := serves.dirRead hheld hopen
        have hworld : w.dirRead P dir.handle = (.ok (name.val,node.info),⟨b',w.calls ++ [.dirRead dir.handle]⟩) := by
          simp only [FsWorld.dirRead, hread]
        rw [hworld]
        simp only [if_neg name.property]
        rw [enterEntry_eq]
        simp only [levelsLeft, walkEntries, walkEntry]
        cases hreach : entryPath path name.val with
        | error e => exact .failed
        | ok path' =>
          have hfound : FsNode.At root tree path' node := .child hparent (hentries _ (by simp)) hreach
          have hunder : path <+: path' := by
            rw [childPath_of_entryPath hreach]
            exact under_childPath path name.val
          have hstill : Stacked root tree (s.setDir dir.handle.value (some left)) path' (dir :: dirs)
              (⟨path,left⟩ :: levels) := by
            refine ⟨hunder,hlen,Function.update_self .., hfresh,⟨parent,hparent,fun e he => hentries e (by simp [he])⟩,?_⟩
            refine hrest.congr fun outer houter => ?_
            exact Function.update_of_ne (hfresh outer houter) _ _
          have hwalked := walked_entered serves
            (r := { r with path := path', dirs := dir :: dirs })
            (w := ⟨b',w.calls ++ [.dirRead dir.handle]⟩) hheld' hstill hshallow hfound
          simp only [levelsLeft, ← Feed.append_assoc] at hwalked ⊢
          exact hwalked.congr

end

/-! ## What a reader stands for -/

section
variable {β H : Type}

/-- A read, and what is there for the next. -/
def nextBlock (P : FsBackend β H) (reader : FsReader H × FsWorld β H) (capacity : ℕ) :
    Except FsError (Wire.Bytes × Bool) × FsReader H × FsWorld β H :=
  readerRead P reader.1 reader.2 capacity

/-- The replies to reads of these capacities, to the last block or the first error. -/
def readerReads (P : FsBackend β H) (capacities : List ℕ) (reader : FsReader H × FsWorld β H) :
    List (Except FsError (Wire.Bytes × Bool)) :=
  reads (nextBlock P) capacities reader

/-- The stream of what is left of the walk. -/
def FsReader.walkLeft (r : FsReader H) (levels : List FsLevel) : Feed UInt8 FsError :=
  let left := levelsLeft (walksDeep r.kind r.flags) levels
  writeOut (entryBytes r.kind r.relativeOffset) (streamEnd r.kind) left.items left.failure

/-- The zeros after a file. -/
def filling (node : FsNode) : List UInt8 := zeros ((512 - node.content.length % 512) % 512)

/-- `left` is left of the open file `node`. -/
structure Reading (root : Path) (tree : FsNode) (s : FsOpened H) (r : FsReader H) (node : FsNode)
    (left : List UInt8) : Prop where
  found : FsNode.At root tree r.path node
  plain : node.info.type = entryFile
  info : r.info = node.info
  opened : ∃ file, r.file = some file ∧ s.files file.value = some left
  remaining : r.remaining = left.length

/-- The stream a reader has still to deliver. -/
inductive Tracks (holds : β → FsOpened H → Prop) (root : Path) (tree : FsNode) (r : FsReader H) (w : FsWorld β H) :
    Feed UInt8 FsError → Prop where
  | walk {s : FsOpened H} {levels : List FsLevel} (phase : r.phase = .walk)
      (kind : r.kind = kindTree ∨ r.kind = kindTar)
      (held : holds w.env s) (stacked : Stacked root tree s r.path r.dirs levels) (shallow : levels.length ≤ maxDepth) :
      Tracks holds root tree r w ((r.walkLeft levels).after r.stage)
  | single {s : FsOpened H} {node : FsNode} {left : List UInt8} (phase : r.phase = .fileData) (kind : r.kind = kindFile)
      (held : holds w.env s) (reading : Reading root tree s r node left) (stage : r.stage = []) :
      Tracks holds root tree r w ⟨left,none⟩
  | archived {s : FsOpened H} {levels : List FsLevel} {node : FsNode} {left : List UInt8}
      (phase : r.phase = .fileData) (kind : r.kind = kindTar) (held : holds w.env s)
      (stacked : Stacked root tree s r.path r.dirs levels) (shallow : levels.length ≤ maxDepth)
      (reading : Reading root tree s r node left) :
      Tracks holds root tree r w ((r.walkLeft levels).after (r.stage ++ (left ++ filling node)))
  | padding {s : FsOpened H} {levels : List FsLevel} (phase : r.phase = .filePadding) (kind : r.kind = kindTar)
      (held : holds w.env s) (stacked : Stacked root tree s r.path r.dirs levels) (shallow : levels.length ≤ maxDepth)
      (stage : r.stage = []) :
      Tracks holds root tree r w ((r.walkLeft levels).after (zeros r.padding))
  | finished (phase : r.phase = .finished) (stage : r.kind = kindTree → r.stage = []) :
      Tracks holds root tree r w ⟨r.stage,none⟩

theorem size_content {node : FsNode} (hplain : node.info.type = entryFile) :
    node.info.size.toNat = node.content.length := by
  cases node with
  | file stamp attributes content fits => exact UInt64.toNat_ofNat_of_lt' fits
  | dir size stamp attributes entries => exact absurd hplain (by decide : entryDir ≠ entryFile)
  | other info special => exact absurd hplain special.1

theorem content_dir {node : FsNode} (hdir : node.info.type = entryDir) : node.content = [] := by
  cases node with
  | file stamp attributes content fits => exact absurd hdir (by decide : entryFile ≠ entryDir)
  | dir size stamp attributes entries => rfl
  | other info special => rfl

variable {holds : β → FsOpened H → Prop} {root : Path} {tree : FsNode}

/-- Nothing else about a reader matters to the file it reads. -/
theorem Reading.congr {s : FsOpened H} {r r' : FsReader H} {node : FsNode} {left : List UInt8}
    (h : Reading root tree s r node left) (hpath : r'.path = r.path) (hinfo : r'.info = r.info)
    (hfile : r'.file = r.file) (hremaining : r'.remaining = r.remaining) : Reading root tree s r' node left where
  found := hpath ▸ h.found
  plain := h.plain
  info := hinfo.trans h.info
  opened := hfile ▸ h.opened
  remaining := hremaining.trans h.remaining

variable [DecidableEq H] {P : FsBackend β H} (serves : Serves P root tree holds)
include serves

/-- A file of the tree opens as it is listed. -/
theorem reading_openFile {s : FsOpened H} {r : FsReader H} {w : FsWorld β H} {node : FsNode}
    (hheld : holds w.env s) (hfound : FsNode.At root tree r.path node) (hplain : node.info.type = entryFile)
    (hinfo : r.info = node.info) :
    ∃ file remaining w' s', openFile P r w = (none,{ r with file := some file, remaining := remaining },w') ∧
      holds w'.env s' ∧ s'.dirs = s.dirs ∧
      Reading root tree s' { r with file := some file, remaining := remaining } node node.content := by
  obtain ⟨file,b',hopen,hheld'⟩ := serves.fileOpen hheld hfound hplain
  have hworld : w.fileOpen P r.slot r.path = (.ok (⟨r.slot,w.calls.length,file⟩,node.info.size),
      ⟨b',w.calls ++ [.fileOpen r.path (some ⟨r.slot,w.calls.length,file⟩)]⟩) := by
    simp only [FsWorld.fileOpen, hopen]
  have hopened : openFile P r w =
      (none,{ r with file := some ⟨r.slot,w.calls.length,file⟩, remaining := node.info.size.toNat },
        ⟨b',w.calls ++ [.fileOpen r.path (some ⟨r.slot,w.calls.length,file⟩)]⟩) := by
    unfold openFile
    rw [hworld]
    simp only [hinfo, ne_eq, not_true_eq_false, if_false]
  exact ⟨_,_,_,s.setFile file (some node.content),hopened,hheld',rfl,hfound,hplain,hinfo,
    ⟨_,rfl,Function.update_self ..⟩,size_content hplain⟩

/-- A file that has been read to its end is what it was. -/
theorem finishFile_end {s : FsOpened H} {r : FsReader H} {w : FsWorld β H} {node : FsNode}
    (hheld : holds w.env s) (hreading : Reading root tree s r node []) :
    ∃ w' s', finishFile P r w = (none,if r.kind = kindFile then { r with file := none, phase := .finished }
        else { r with file := none, padding := (512 - node.content.length % 512) % 512, phase := .filePadding },w') ∧
      holds w'.env s' ∧ s'.dirs = s.dirs := by
  obtain ⟨b',hstat,hheld'⟩ := serves.stat hheld hreading.found
  obtain ⟨file,hfile,hopened⟩ := hreading.opened
  have hclosed := serves.fileClose hheld' hopened
  have hfinished : finishFile P r w = (none,if r.kind = kindFile then { r with file := none, phase := .finished }
      else { r with file := none, padding := (512 - node.content.length % 512) % 512, phase := .filePadding },
        ⟨P.fileClose b' file.value,(w.calls ++ [.stat r.path]) ++ [.fileClose file]⟩) := by
    unfold finishFile
    simp only [FsWorld.stat, hstat, hfile, hreading.info, hreading.plain, ne_eq, not_true_eq_false, false_or, if_false,
      size_content hreading.plain]
    split
    · rfl
    · rfl
  exact ⟨_,s.setFile file.value none,hfinished,hclosed,rfl⟩

omit [DecidableEq H] serves in
/-- The stream of a walk that has an entry before it. -/
theorem walkLeft_entry {r : FsReader H} {levels levels' : List FsLevel} {entry : FsEntry}
    (hleft : levelsLeft (walksDeep r.kind r.flags) levels =
      (levelsLeft (walksDeep r.kind r.flags) levels').after [entry]) :
    r.walkLeft levels =
      match entryBytes r.kind r.relativeOffset entry with
      | .error e => ⟨[],some e⟩
      | .ok front => (r.walkLeft levels').after front := by
  unfold FsReader.walkLeft
  rw [hleft]
  simp only [Feed.after_items, Feed.after_failure, List.singleton_append, writeOut]
  cases entryBytes r.kind r.relativeOffset entry with
  | error e => rfl
  | ok front => rfl

/-- The iterations that can pass before the next byte. -/
def FsReader.idle (r : FsReader H) : ℕ :=
  if r.stage ≠ [] then 0
  else
    match r.phase with
    | .fileData => if r.remaining = 0 then 3 else 0
    | .filePadding => if r.padding = 0 then 2 else 0
    | .walk => 1
    | .finished => 0

/-- What an iteration does when this is left of the stream: it hands out a part, or comes
closer to the next byte, or is at the end. -/
inductive Turned (holds : β → FsOpened H → Prop) (root : Path) (tree : FsNode) (available : ℕ) (r : FsReader H)
    (w : FsWorld β H) : Feed UInt8 FsError → (Turn × Wire.Bytes) × FsReader H × FsWorld β H → Prop where
  | again (data : List UInt8) (feed : Feed UInt8 FsError) {r' : FsReader H} {w' : FsWorld β H}
      (fits : data.length ≤ available) (tracks : Tracks holds root tree r' w' feed) (kind : r'.kind = r.kind)
      (closer : data = [] → r'.idle < r.idle)
      (unfinished : data ≠ [] → r.kind = kindTree → r'.phase ≠ .finished) :
      Turned holds root tree available r w (feed.after data) ((.again,data),r',w')
  | stop (phase : r.phase = .finished) (stage : r.stage = []) :
      Turned holds root tree available r w ⟨[],none⟩ ((.stop,[]),r,w)
  | failed {e : FsError} {r' : FsReader H} {w' : FsWorld β H} :
      Turned holds root tree available r w ⟨[],some e⟩ ((.failed e,[]),r',w')

omit [DecidableEq H] serves in
/-- What is staged goes out first. -/
theorem turned_stage {r : FsReader H} {w : FsWorld β H} {feed : Feed UInt8 FsError} {available : ℕ}
    (htracks : Tracks holds root tree r w feed) (hroom : 0 < available) (hstage : r.stage ≠ []) :
    Turned holds root tree available r w feed
      ((.again,r.stage.take available),{ r with stage := r.stage.drop available },w) := by
  have hsplit : r.stage.take available ++ r.stage.drop available = r.stage := List.take_append_drop ..
  have hfits : (r.stage.take available).length ≤ available := List.length_take_le ..
  have hbytes : r.stage.take available ≠ [] := by
    simp only [ne_eq, List.take_eq_nil_iff, not_or]
    exact ⟨by omega,hstage⟩
  cases htracks with
  | @walk s levels phase kind held stacked shallow =>
    have hrest : Tracks holds root tree { r with stage := r.stage.drop available } w
        ((r.walkLeft levels).after (r.stage.drop available)) := .walk phase kind held stacked shallow
    have hturned : Turned holds root tree available r w _ _ := .again _ _ hfits hrest rfl
      (fun h => absurd h hbytes) fun _ _ => by simp [phase]
    rwa [Feed.after_after, hsplit] at hturned
  | single phase kind held reading stage => exact absurd stage hstage
  | @archived s levels node left phase kind held stacked shallow reading =>
    have hrest : Tracks holds root tree { r with stage := r.stage.drop available } w
        ((r.walkLeft levels).after (r.stage.drop available ++ (left ++ filling node))) :=
      .archived phase kind held stacked shallow (reading.congr rfl rfl rfl rfl)
    have hturned : Turned holds root tree available r w _ _ := .again _ _ hfits hrest rfl
      (fun h => absurd h hbytes) fun _ _ => by simp [phase]
    rwa [Feed.after_after, ← List.append_assoc, hsplit] at hturned
  | padding phase kind held stacked shallow stage => exact absurd stage hstage
  | finished phase stage =>
    have hrest : Tracks holds root tree { r with stage := r.stage.drop available } w ⟨r.stage.drop available,none⟩ :=
      .finished phase fun hkind => absurd (stage hkind) hstage
    have hturned : Turned holds root tree available r w _ _ := .again _ _ hfits hrest rfl
      (fun h => absurd h hbytes) fun _ hkind => absurd (stage hkind) hstage
    rwa [Feed.after, hsplit] at hturned

/-- The next bytes of the open file. -/
theorem readTurn_data {s : FsOpened H} {r : FsReader H} {w : FsWorld β H} {node : FsNode} {left : List UInt8}
    {available : ℕ} (hheld : holds w.env s) (hreading : Reading root tree s r node left) (hphase : r.phase = .fileData)
    (hstage : r.stage = []) (hleft : left ≠ []) (hroom : 0 < available) :
    ∃ n w' s', 0 < n ∧ n ≤ available ∧ n ≤ left.length ∧
      readTurn P available r w = ((.again,left.take n),{ r with remaining := r.remaining - n },w') ∧
      holds w'.env s' ∧ s'.dirs = s.dirs ∧
      Reading root tree s' { r with remaining := r.remaining - n } node (left.drop n) := by
  obtain ⟨file,hfile,hopened⟩ := hreading.opened
  have hlength : 0 < left.length := List.length_pos_iff.mpr hleft
  have hremaining := hreading.remaining
  have hwant : 0 < min r.remaining available := by omega
  obtain ⟨n,b',hn,hfits,hlen,hread,hheld'⟩ := serves.fileRead hheld hopened hleft hwant
  have htaken : (left.take n).length = n := List.length_take_of_le hlen
  refine ⟨n,⟨b',w.calls ++ [.fileRead file (min r.remaining available)]⟩,s.setFile file.value (some (left.drop n)),hn,
    by omega,hlen,?_,hheld',rfl,?_⟩
  · unfold readTurn
    have hnonzero : ¬r.remaining = 0 := by omega
    have hanswer : ¬((left.take n).length = 0 ∨ min r.remaining available < (left.take n).length) := by omega
    simp only [hstage, ne_eq, not_true_eq_false, if_false, hphase, hnonzero, hfile, FsWorld.fileRead, hread]
    rw [if_neg hanswer, htaken]
  · exact {
      found := hreading.found
      plain := hreading.plain
      info := hreading.info
      opened := ⟨file,hfile,Function.update_self ..⟩
      remaining := by
        show r.remaining - n = (left.drop n).length
        rw [List.length_drop, hremaining] }

/-- The end of the open file. -/
theorem readTurn_end (available : ℕ) {s : FsOpened H} {r : FsReader H} {w : FsWorld β H} {node : FsNode}
    (hheld : holds w.env s) (hreading : Reading root tree s r node []) (hphase : r.phase = .fileData)
    (hstage : r.stage = []) :
    ∃ w' s', readTurn P available r w =
        ((.again,[]),if r.kind = kindFile then { r with file := none, phase := .finished }
          else { r with file := none, padding := (512 - node.content.length % 512) % 512, phase := .filePadding },w') ∧
      holds w'.env s' ∧ s'.dirs = s.dirs := by
  obtain ⟨w',s',hfinish,hheld',hdirs⟩ := finishFile_end serves hheld hreading
  refine ⟨w',s',?_,hheld',hdirs⟩
  unfold readTurn
  simp only [hstage, ne_eq, not_true_eq_false, if_false, hphase, hreading.remaining, List.length_nil, if_true, hfinish,
    Turn.of]

/-- A file that is read alone. -/
theorem turned_single {s : FsOpened H} {r : FsReader H} {w : FsWorld β H} {node : FsNode} {left : List UInt8}
    {available : ℕ} (hroom : 0 < available) (hphase : r.phase = .fileData) (hkind : r.kind = kindFile)
    (hheld : holds w.env s) (hreading : Reading root tree s r node left) (hstage : r.stage = []) :
    Turned holds root tree available r w ⟨left,none⟩ (readTurn P available r w) := by
  by_cases hleft : left = []
  · subst hleft
    obtain ⟨w',s',hturn,hheld',hdirs⟩ := readTurn_end serves available hheld hreading hphase hstage
    rw [hturn, if_pos hkind]
    have hrest : Tracks holds root tree { r with file := none, phase := .finished } w' ⟨r.stage,none⟩ :=
      .finished rfl fun _ => hstage
    have hempty : (⟨r.stage,none⟩ : Feed UInt8 FsError) = ⟨[],none⟩ := by rw [hstage]
    rw [hempty] at hrest
    refine .again [] ⟨[],none⟩ (Nat.zero_le _) hrest rfl (fun _ => ?_) fun h => absurd rfl h
    simp [FsReader.idle, hstage, hphase, hreading.remaining]
  · obtain ⟨n,w',s',hn,hfits,hlen,hturn,hheld',hdirs,hreading'⟩ :=
      readTurn_data serves hheld hreading hphase hstage hleft hroom
    rw [hturn]
    have hrest : Tracks holds root tree { r with remaining := r.remaining - n } w' ⟨left.drop n,none⟩ :=
      .single hphase hkind hheld' hreading' hstage
    have hbytes : left.take n ≠ [] := by simp [hleft]; omega
    have hturned : Turned holds root tree available r w _ _ := .again (left.take n) _
      ((List.length_take_le ..).trans hfits) hrest rfl (fun h => absurd h hbytes) fun _ _ => by simp [hphase]
    rwa [Feed.after, List.take_append_drop] at hturned

omit [DecidableEq H] serves in
/-- Only the open directories of a reader matter to what is left of the walk. -/
theorem Stacked.of_dirs {s s' : FsOpened H} {path : Path} {dirs : List (FsDir H)} {levels : List FsLevel}
    (h : Stacked root tree s path dirs levels) (hdirs : s'.dirs = s.dirs) : Stacked root tree s' path dirs levels :=
  h.congr fun dir _ => congrFun hdirs dir.handle.value

/-- A file in an archive. -/
theorem turned_archived {s : FsOpened H} {r : FsReader H} {w : FsWorld β H} {node : FsNode} {left : List UInt8}
    {levels : List FsLevel} {available : ℕ} (hroom : 0 < available) (hphase : r.phase = .fileData)
    (hkind : r.kind = kindTar) (hheld : holds w.env s) (hstacked : Stacked root tree s r.path r.dirs levels)
    (hshallow : levels.length ≤ maxDepth) (hreading : Reading root tree s r node left) (hstage : r.stage = []) :
    Turned holds root tree available r w ((r.walkLeft levels).after (left ++ filling node)) (readTurn P available r w) := by
  by_cases hleft : left = []
  · subst hleft
    obtain ⟨w',s',hturn,hheld',hdirs⟩ := readTurn_end serves available hheld hreading hphase hstage
    have hnot : ¬r.kind = kindFile := by rw [hkind]; decide
    rw [hturn, if_neg hnot]
    have hrest : Tracks holds root tree
        { r with file := none, padding := (512 - node.content.length % 512) % 512, phase := .filePadding } w'
        ((r.walkLeft levels).after (filling node)) :=
      .padding rfl hkind hheld' (hstacked.of_dirs hdirs) hshallow hstage
    refine .again [] _ (Nat.zero_le _) hrest rfl (fun _ => ?_) fun h => absurd rfl h
    simp only [FsReader.idle, hstage, hphase, hreading.remaining, ne_eq, not_true_eq_false, if_false, List.length_nil,
      if_true]
    split <;> omega
  · obtain ⟨n,w',s',hn,hfits,hlen,hturn,hheld',hdirs,hreading'⟩ :=
      readTurn_data serves hheld hreading hphase hstage hleft hroom
    rw [hturn]
    have hrest : Tracks holds root tree { r with remaining := r.remaining - n } w'
        ((r.walkLeft levels).after (r.stage ++ (left.drop n ++ filling node))) :=
      .archived hphase hkind hheld' (hstacked.of_dirs hdirs) hshallow hreading'
    have hbytes : left.take n ≠ [] := by simp [hleft]; omega
    have hfeed : (r.walkLeft levels).after (left ++ filling node) =
        ((r.walkLeft levels).after (r.stage ++ (left.drop n ++ filling node))).after (left.take n) := by
      rw [Feed.after_after, hstage, List.nil_append, ← List.append_assoc, List.take_append_drop]
    rw [hfeed]
    exact .again (left.take n) _ ((List.length_take_le ..).trans hfits) hrest rfl (fun h => absurd h hbytes)
      fun _ _ => by simp [hphase]

omit [DecidableEq H] serves in
theorem readTurn_padding (P : FsBackend β H) {r : FsReader H} (w : FsWorld β H) (available : ℕ)
    (hphase : r.phase = .filePadding) (hstage : r.stage = []) :
    readTurn P available r w = ((.again,zeros (min r.padding available)),
      if r.padding - min r.padding available = 0 then
        { r with padding := r.padding - min r.padding available, phase := .walk }
      else { r with padding := r.padding - min r.padding available },w) := by
  unfold readTurn
  simp only [hstage, ne_eq, not_true_eq_false, if_false, hphase]

omit [DecidableEq H] serves in
/-- The zeros after a file in an archive. -/
theorem turned_padding {s : FsOpened H} {r : FsReader H} {w : FsWorld β H} {levels : List FsLevel} {available : ℕ}
    (hroom : 0 < available) (hphase : r.phase = .filePadding) (hkind : r.kind = kindTar) (hheld : holds w.env s)
    (hstacked : Stacked root tree s r.path r.dirs levels) (hshallow : levels.length ≤ maxDepth) (hstage : r.stage = []) :
    Turned holds root tree available r w ((r.walkLeft levels).after (zeros r.padding)) (readTurn P available r w) := by
  have hsplit : zeros (min r.padding available) ++ zeros (r.padding - min r.padding available) = zeros r.padding := by
    unfold zeros
    rw [← List.replicate_add]
    congr 1
    omega
  have hlength : (zeros (min r.padding available)).length ≤ available := by simp [zeros]
  rw [readTurn_padding P w available hphase hstage]
  by_cases hdone : r.padding - min r.padding available = 0
  · rw [if_pos hdone]
    have hfeed : (r.walkLeft levels).after (zeros r.padding) =
        ((r.walkLeft levels).after r.stage).after (zeros (min r.padding available)) := by
      rw [Feed.after_after, hstage, List.append_nil, ← hsplit, hdone]
      simp [zeros]
    have hrest : Tracks holds root tree { r with padding := r.padding - min r.padding available, phase := .walk } w
        ((r.walkLeft levels).after r.stage) :=
      .walk rfl (.inr hkind) hheld hstacked hshallow
    rw [hfeed]
    refine .again _ _ hlength hrest rfl (fun hnone => ?_) fun _ _ => by simp
    have hzero : r.padding = 0 := by
      simp only [zeros, List.replicate_eq_nil_iff] at hnone
      omega
    simp [FsReader.idle, hstage, hphase, hzero]
  · rw [if_neg hdone, ← hsplit, ← Feed.after_after]
    have hrest : Tracks holds root tree { r with padding := r.padding - min r.padding available } w
        ((r.walkLeft levels).after (zeros (r.padding - min r.padding available))) :=
      .padding hphase hkind hheld hstacked hshallow hstage
    refine .again _ _ hlength hrest rfl (fun hnone => ?_) fun _ _ => by simp [hphase]
    simp only [zeros, List.replicate_eq_nil_iff] at hnone
    omega

/-- What is staged of an entry, and the file behind it. -/
theorem turned_stageEntry {s : FsOpened H} {r : FsReader H} {w : FsWorld β H} {node : FsNode}
    {levels : List FsLevel} (hphase : r.phase = .walk)
    (hkind : r.kind = kindTree ∨ r.kind = kindTar) (hheld : holds w.env s) (hstacked : Stacked root tree s r.path r.dirs levels)
    (hshallow : levels.length ≤ maxDepth) (hfound : FsNode.At root tree r.path node) (hinfo : r.info = node.info)
    (hplain : node.info.type = entryFile ∨ node.info.type = entryDir) :
    match entryBytes r.kind r.relativeOffset ⟨r.path,node⟩ with
    | .error e => ∃ r' w', stageEntry P r w = (some e,r',w')
    | .ok front => ∃ r' w', stageEntry P r w = (none,r',w') ∧ r'.kind = r.kind ∧ r'.stage ≠ [] ∧
        Tracks holds root tree r' w' ((r.walkLeft levels).after front) := by
  unfold stageEntry entryBytes
  by_cases htree : r.kind = kindTree
  · simp only [if_pos htree]
    refine ⟨_,_,rfl,rfl,?_,?_⟩
    · simp [treeRecord]
    · have hrest : Tracks holds root tree { r with stage := treeRecord r.relative r.info } w
          ((r.walkLeft levels).after (treeRecord r.relative r.info)) :=
        .walk hphase hkind hheld hstacked hshallow
      rw [hinfo] at hrest ⊢
      exact hrest
  · have htar : r.kind = kindTar := hkind.resolve_left htree
    simp only [if_neg htree]
    rcases hplain with hfile | hdir
    · -- the file is open when the header is written
      obtain ⟨file,remaining,w',s',hopen,hheld',hdirs,hreading⟩ := reading_openFile serves hheld hfound hfile hinfo
      simp only [hinfo, hfile, if_true, hopen, FsReader.relative]
      cases hheader : tarEntry (r.path.drop r.relativeOffset) node.info with
      | none => exact ⟨_,_,rfl⟩
      | some header =>
        refine ⟨_,_,rfl,rfl,tarEntry_ne_nil hheader,?_⟩
        have hrest : Tracks holds root tree
            { r with file := some file, info := node.info, remaining := remaining, stage := header, phase := .fileData }
            w' ((r.walkLeft levels).after (header ++ (node.content ++ filling node))) :=
          .archived rfl htar hheld' (hstacked.of_dirs hdirs) hshallow (hreading.congr rfl hinfo.symm rfl rfl)
        exact hrest
    · have htype : ¬node.info.type = entryFile := by rw [hdir]; decide
      simp only [hinfo, htype, if_false, FsReader.relative]
      cases hheader : tarEntry (r.path.drop r.relativeOffset) node.info with
      | none => exact ⟨_,_,rfl⟩
      | some header =>
        refine ⟨_,_,rfl,rfl,tarEntry_ne_nil hheader,?_⟩
        have hempty : node.content ++ zeros ((512 - node.content.length % 512) % 512) = [] := by
          rw [content_dir hdir]
          rfl
        have hrest : Tracks holds root tree { r with info := node.info, stage := header } w
            ((r.walkLeft levels).after header) :=
          .walk hphase hkind hheld hstacked hshallow
        simp only [hempty, List.append_nil]
        exact hrest

/-- The walk to the next entry. -/
theorem turned_walk {s : FsOpened H} {r : FsReader H} {w : FsWorld β H} {levels : List FsLevel} (available : ℕ)
    (hphase : r.phase = .walk) (hkind : r.kind = kindTree ∨ r.kind = kindTar) (hheld : holds w.env s)
    (hstacked : Stacked root tree s r.path r.dirs levels) (hshallow : levels.length ≤ maxDepth) (hstage : r.stage = []) :
    Turned holds root tree available r w (r.walkLeft levels) (readTurn P available r w) := by
  have hwalked := walked_nextEntry serves hheld hstacked hshallow
  have hidle : r.idle = 1 := by simp [FsReader.idle, hstage, hphase]
  unfold readTurn
  rw [if_neg (by simp [hstage]), hphase]
  dsimp only
  generalize hleft : levelsLeft (walksDeep r.kind r.flags) levels = left at hwalked
  generalize nextEntry P r.dirs r w = out at hwalked ⊢
  cases hwalked with
  | failed =>
    unfold FsReader.walkLeft
    rw [hleft]
    exact .failed
  | @done path info s' w' held =>
    unfold FsReader.walkLeft
    rw [hleft]
    have hrest : Tracks holds root tree
        { r with path := path, info := info, dirs := [], phase := .finished, stage := streamEnd r.kind } w'
        ⟨streamEnd r.kind,none⟩ :=
      .finished rfl fun htree => if_neg (by
        simp only at htree
        rw [htree]
        decide)
    refine .again [] _ (Nat.zero_le _) hrest rfl (fun _ => ?_) fun h => absurd rfl h
    rw [hidle]
    simp [FsReader.idle]
  | @entry entry dirs levels' s' w' held found plain stacked shallow =>
    have hwalk := walkLeft_entry hleft
    have hstaged := turned_stageEntry (r := { r with path := entry.path, info := entry.node.info, dirs := dirs })
      serves hphase hkind held stacked shallow found rfl plain
    rw [hwalk]
    simp only at hstaged ⊢
    cases hbytes : entryBytes r.kind r.relativeOffset entry with
    | error e =>
      rw [show entryBytes r.kind r.relativeOffset ⟨entry.path,entry.node⟩ = _ from hbytes] at hstaged
      obtain ⟨r',w'',hstage'⟩ := hstaged
      rw [hstage']
      exact .failed
    | ok front =>
      rw [show entryBytes r.kind r.relativeOffset ⟨entry.path,entry.node⟩ = _ from hbytes] at hstaged
      obtain ⟨r',w'',hstage',hkind',hbytes',htracks⟩ := hstaged
      rw [hstage']
      refine .again [] _ (Nat.zero_le _) htracks hkind' (fun _ => ?_) fun h => absurd rfl h
      rw [hidle]
      simp [FsReader.idle, hbytes']

/-- One iteration of the loop. -/
theorem turned_readTurn {r : FsReader H} {w : FsWorld β H} {feed : Feed UInt8 FsError} {available : ℕ}
    (htracks : Tracks holds root tree r w feed) (hroom : 0 < available) :
    Turned holds root tree available r w feed (readTurn P available r w) := by
  by_cases hstage : r.stage = []
  · cases htracks with
    | walk phase kind held stacked shallow =>
      rw [hstage, Feed.after_nil]
      exact turned_walk serves available phase kind held stacked shallow hstage
    | single phase kind held reading stage => exact turned_single serves hroom phase kind held reading stage
    | archived phase kind held stacked shallow reading =>
      rw [hstage, List.nil_append]
      exact turned_archived serves hroom phase kind held stacked shallow reading hstage
    | padding phase kind held stacked shallow stage =>
      exact turned_padding hroom phase kind held stacked shallow stage
    | finished phase stage =>
      have hturn : readTurn P available r w = ((.stop,[]),r,w) := by
        unfold readTurn
        rw [if_neg (by simp [hstage]), phase]
      rw [hturn, hstage]
      exact .stop phase hstage
  · have hturn : readTurn P available r w =
        ((.again,r.stage.take available),{ r with stage := r.stage.drop available },w) := by
      unfold readTurn
      rw [if_pos hstage]
    rw [hturn]
    exact turned_stage htracks hroom hstage

omit [DecidableEq H] serves in
theorem idle_le (r : FsReader H) : r.idle ≤ 3 := by
  unfold FsReader.idle
  split
  · omega
  · split
    · split <;> omega
    · split <;> omega
    · omega
    · omega

/-- What the loop comes to. -/
inductive Looped (holds : β → FsOpened H → Prop) (root : Path) (tree : FsNode) (available : ℕ) (kind : UInt8)
    (feed : Feed UInt8 FsError) : (Option FsError × Wire.Bytes) × FsReader H × FsWorld β H → Prop where
  | full {r : FsReader H} {w : FsWorld β H} (enough : available ≤ feed.items.length)
      (tracks : Tracks holds root tree r w ⟨feed.items.drop available,feed.failure⟩) (same : r.kind = kind)
      (unfinished : r.kind = kindTree → r.phase ≠ .finished) :
      Looped holds root tree available kind feed ((none,feed.items.take available),r,w)
  | whole {r : FsReader H} {w : FsWorld β H} (short : feed.items.length < available) (failure : feed.failure = none)
      (phase : r.phase = .finished) (stage : r.stage = []) (same : r.kind = kind) :
      Looped holds root tree available kind feed ((none,feed.items),r,w)
  | failed {data : List UInt8} {e : FsError} {r : FsReader H} {w : FsWorld β H} (short : feed.items.length < available)
      (failure : feed.failure = some e) : Looped holds root tree available kind feed ((some e,data),r,w)

omit [DecidableEq H] serves in
/-- What a turn has handed out goes before the rest. -/
theorem Looped.after {available : ℕ} {kind : UInt8} {feed : Feed UInt8 FsError} {data rest : List UInt8}
    {error : Option FsError} {r : FsReader H} {w : FsWorld β H} (hfits : data.length ≤ available)
    (h : Looped holds root tree (available - data.length) kind feed ((error,rest),r,w)) :
    Looped holds root tree available kind (feed.after data) ((error,data ++ rest),r,w) := by
  have htake : (data ++ feed.items).take available = data ++ feed.items.take (available - data.length) := by
    rw [List.take_append, List.take_of_length_le hfits]
  have hdrop : (data ++ feed.items).drop available = feed.items.drop (available - data.length) := by
    rw [List.drop_append, List.drop_of_length_le hfits, List.nil_append]
  cases h with
  | full enough tracks same unfinished =>
    rw [← htake]
    refine .full ?_ ?_ same unfinished
    · rw [Feed.after_items, List.length_append]
      omega
    · rw [Feed.after_items, hdrop]
      exact tracks
  | whole short failure phase stage same =>
    refine .whole ?_ failure phase stage same
    rw [Feed.after_items, List.length_append]
    omega
  | failed short failure =>
    refine .failed ?_ failure
    rw [Feed.after_items, List.length_append]
    omega

/-- The loop does not run out of iterations: it fills the block or comes to the end. -/
theorem looped_readLoop {fuel available : ℕ} {r : FsReader H} {w : FsWorld β H} {feed : Feed UInt8 FsError}
    (htracks : Tracks holds root tree r w feed) (hfuel : 4 * available + r.idle < fuel)
    (hopen : available = 0 → r.kind = kindTree → r.phase ≠ .finished) :
    Looped holds root tree available r.kind feed (readLoop P fuel available r w) := by
  induction fuel generalizing available r w feed with
  | zero => omega
  | succ fuel ih =>
    unfold readLoop
    by_cases hroom : available = 0
    · subst hroom
      rw [if_pos rfl]
      exact .full (Nat.zero_le _) htracks rfl (hopen rfl)
    · rw [if_neg hroom]
      have hturned := turned_readTurn serves htracks (Nat.pos_of_ne_zero hroom)
      generalize readTurn P available r w = out at hturned ⊢
      cases hturned with
      | stop phase stage => exact .whole (Nat.pos_of_ne_zero hroom) rfl phase stage rfl
      | failed => exact .failed (Nat.pos_of_ne_zero hroom) rfl
      | @again data feed' r' w' fits tracks kind closer unfinished =>
        have hidle := idle_le r'
        have hnext : 4 * (available - data.length) + r'.idle < fuel := by
          by_cases hdata : data = []
          · have hcloser := closer hdata
            subst hdata
            simp only [List.length_nil, Nat.sub_zero]
            omega
          · have hlength := List.length_pos_iff.mpr hdata
            omega
        have hopen' : available - data.length = 0 → r'.kind = kindTree → r'.phase ≠ .finished := by
          intro hfull hkind
          refine unfinished ?_ (kind.symm.trans hkind)
          rintro rfl
          exact hroom hfull
        have hlooped := ih tracks hnext hopen'
        rw [kind] at hlooped
        exact Looped.after fits hlooped

/-! ## Blocks -/

omit [DecidableEq H] serves in
/-- An archive does not end without its trailer. -/
theorem walkLeft_tar {r : FsReader H} {levels : List FsLevel} (front : List UInt8) (hkind : r.kind = kindTar)
    (hfailure : ((r.walkLeft levels).after front).failure = none) : ((r.walkLeft levels).after front).items ≠ [] := by
  have htrailer : streamEnd r.kind ≠ [] := by
    rw [hkind]
    decide
  exact fun h => writeOut_ne_nil htrailer hfailure (List.append_eq_nil_iff.mp h).2

/-- After the last step of a read the end shows unless it is that of a listing. -/
theorem tracks_finishBlock {r : FsReader H} {w : FsWorld β H} {feed : Feed UInt8 FsError}
    (htracks : Tracks holds root tree r w feed) (hopen : r.kind = kindTree → r.phase ≠ .finished) :
    ∃ r' w', finishBlock P r w = (none,r',w') ∧ Tracks holds root tree r' w' feed ∧ r'.kind = r.kind ∧
      ((r'.phase = .finished ∧ r'.stage = []) ↔ r.kind ≠ kindTree ∧ feed.failure = none ∧ feed.items = []) := by
  have hidle : ¬(r.phase = .fileData ∧ r.remaining = 0 ∧ r.stage = []) → finishBlock P r w = (none,r,w) :=
    fun h => if_neg h
  have hfinish : r.phase = .fileData ∧ r.remaining = 0 ∧ r.stage = [] → finishBlock P r w = finishFile P r w :=
    fun h => if_pos h
  have hcopy := htracks
  cases htracks with
  | walk phase kind held stacked shallow =>
    refine ⟨r,w,hidle (by simp [phase]),hcopy,rfl,?_⟩
    simp only [phase, reduceCtorEq, false_and, false_iff]
    rintro ⟨htree,hfailure,hitems⟩
    exact walkLeft_tar r.stage (kind.resolve_left htree) hfailure hitems
  | @single s node left phase kind held reading stage =>
    by_cases hleft : left = []
    · subst hleft
      obtain ⟨w',s',hend,hheld',hdirs⟩ := finishFile_end serves held reading
      rw [if_pos kind] at hend
      have hdone := hfinish ⟨phase,reading.remaining,stage⟩
      have hrest : Tracks holds root tree { r with file := none, phase := .finished } w' ⟨r.stage,none⟩ :=
        .finished rfl fun _ => stage
      have hempty : (⟨r.stage,none⟩ : Feed UInt8 FsError) = ⟨[],none⟩ := by rw [stage]
      rw [hempty] at hrest
      refine ⟨_,_,hdone.trans hend,hrest,rfl,?_⟩
      have htree : r.kind ≠ kindTree := by rw [kind]; decide
      simp [stage, htree]
    · have hremaining : r.remaining ≠ 0 := by
        rw [reading.remaining]
        exact fun h => hleft (List.length_eq_zero_iff.mp h)
      refine ⟨r,w,hidle (by simp [hremaining]),hcopy,rfl,?_⟩
      simp [phase, hleft]
  | @archived s levels node left phase kind held stacked shallow reading =>
    by_cases hlast : r.remaining = 0 ∧ r.stage = []
    · have hleft : left = [] := by
        rw [← List.length_eq_zero_iff, ← reading.remaining]
        exact hlast.1
      subst hleft
      obtain ⟨w',s',hend,hheld',hdirs⟩ := finishFile_end serves held reading
      have hnot : ¬r.kind = kindFile := by rw [kind]; decide
      rw [if_neg hnot] at hend
      have hdone := hfinish ⟨phase,hlast⟩
      have hrest : Tracks holds root tree
          { r with file := none, padding := (512 - node.content.length % 512) % 512, phase := .filePadding } w'
          ((r.walkLeft levels).after (filling node)) :=
        .padding rfl kind hheld' (stacked.of_dirs hdirs) shallow hlast.2
      have hfeed : r.stage ++ ([] ++ filling node) = filling node := by rw [hlast.2]; rfl
      rw [← hfeed] at hrest
      refine ⟨_,_,hdone.trans hend,hrest,rfl,?_⟩
      simp only [reduceCtorEq, false_and, false_iff]
      rintro ⟨_,hfailure,hitems⟩
      exact walkLeft_tar _ kind hfailure hitems
    · refine ⟨r,w,hidle fun h => hlast h.2,hcopy,rfl,?_⟩
      simp only [phase, reduceCtorEq, false_and, false_iff]
      rintro ⟨_,hfailure,hitems⟩
      exact walkLeft_tar _ kind hfailure hitems
  | padding phase kind held stacked shallow stage =>
    refine ⟨r,w,hidle (by simp [phase]),hcopy,rfl,?_⟩
    simp only [phase, reduceCtorEq, false_and, false_iff]
    rintro ⟨_,hfailure,hitems⟩
    exact walkLeft_tar _ kind hfailure hitems
  | finished phase stage =>
    refine ⟨r,w,hidle (by simp [phase]),hcopy,rfl,?_⟩
    simp only [phase, true_and]
    exact ⟨fun h => ⟨fun hkind => hopen hkind phase,h⟩,fun h => h.2⟩

/-- A block of the reader is that of the stream. -/
theorem readerRead_eq {r : FsReader H} {w : FsWorld β H} {feed : Feed UInt8 FsError} {capacity : ℕ}
    (htracks : Tracks holds root tree r w feed) (hpos : 0 < capacity) :
    (readerRead P r w capacity).1 = (feed.read (decide (r.kind ≠ kindTree)) capacity).1 ∧
      ∀ block, (readerRead P r w capacity).1 = .ok (block,false) →
        Tracks holds root tree (readerRead P r w capacity).2.1 (readerRead P r w capacity).2.2
          (feed.read (decide (r.kind ≠ kindTree)) capacity).2 ∧
        (readerRead P r w capacity).2.1.kind = r.kind := by
  have hfuel : 4 * capacity + r.idle < readFuel capacity := by
    have hidle := idle_le r
    unfold readFuel
    omega
  have hlooped := looped_readLoop serves htracks hfuel (fun h => absurd h (by omega))
  unfold readerRead
  rw [if_neg (by omega)]
  generalize readLoop P (readFuel capacity) capacity r w = out at hlooped ⊢
  cases hlooped with
  | @full r₁ w₁ enough tracks same unfinished =>
    obtain ⟨r₂,w₂,hfinish,htracks₂,hkind₂,hend⟩ := tracks_finishBlock serves tracks unfinished
    have hread : feed.read (decide (r.kind ≠ kindTree)) capacity =
        (.ok (feed.items.take capacity,decide (r₂.phase = .finished ∧ r₂.stage = [])),
          ⟨feed.items.drop capacity,feed.failure⟩) := by
      unfold Feed.read
      rw [if_neg (not_lt.mpr enough)]
      congr 3
      rw [Bool.eq_iff_iff]
      simp only [Bool.and_eq_true, decide_eq_true_eq, Option.isNone_iff_eq_none]
      rw [hend, same, List.drop_eq_nil_iff]
      constructor
      · rintro ⟨⟨htree,hfailure⟩,hlength⟩
        exact ⟨htree,hfailure,hlength.le⟩
      · rintro ⟨htree,hfailure,hlength⟩
        exact ⟨⟨htree,hfailure⟩,le_antisymm hlength enough⟩
    simp only [if_pos, hfinish, hread]
    exact ⟨trivial,fun _ _ => ⟨htracks₂,hkind₂.trans same⟩⟩
  | @whole r₁ w₁ short failure phase stage same =>
    have hfinish : finishBlock P r₁ w₁ = (none,r₁,w₁) := if_neg (by simp [phase])
    have hread : feed.read (decide (r.kind ≠ kindTree)) capacity = (.ok (feed.items,true),⟨[],none⟩) := by
      unfold Feed.read
      rw [if_pos short, failure]
    simp only [if_pos, hfinish, hread, phase, stage, and_self, decide_true]
    exact ⟨trivial,fun block h => by simp at h⟩
  | @failed data e r₁ w₁ short failure =>
    have hread : feed.read (decide (r.kind ≠ kindTree)) capacity = (.error e,feed) := by
      unfold Feed.read
      rw [if_pos short, failure]
    simp only [reduceCtorEq, if_false, hread]
    exact ⟨trivial,fun block h => by simp at h⟩

omit [DecidableEq H] serves in
theorem kind_cases {kind : UInt8} (h : ¬(kind < kindFile ∨ kindTar < kind)) :
    kind = kindFile ∨ kind = kindTree ∨ kind = kindTar := by
  have hfile : kindFile.toNat = 1 := rfl
  have htree : kindTree.toNat = 2 := rfl
  have htar : kindTar.toNat = 3 := rfl
  simp only [UInt8.lt_iff_toNat_lt, ← UInt8.toNat_inj] at h ⊢
  omega

/-- A reader that has been opened has all of the stream before it. -/
theorem tracks_readerOpen {s : FsOpened H} {w w' : FsWorld β H} {slot : ℕ} {kind flags : UInt8} {r : FsReader H}
    (hheld : holds w.env s) (hopened : readerOpen P w slot root kind flags = (.ok r,w')) :
    Tracks holds root tree r w' (fsStream root tree kind flags) ∧ r.kind = kind := by
  unfold readerOpen at hopened
  by_cases hlong : pathCapacity ≤ root.length
  · rw [if_pos hlong] at hopened
    cases hopened
  rw [if_neg hlong] at hopened
  by_cases hrange : kind < kindFile ∨ kindTar < kind
  · rw [if_pos hrange] at hopened
    cases hopened
  rw [if_neg hrange] at hopened
  by_cases hflags : (kind ≠ kindTree ∧ flags ≠ 0) ∨ flags &&& ~~~flagRecursive ≠ 0
  · rw [if_pos hflags] at hopened
    cases hopened
  rw [if_neg hflags] at hopened
  obtain ⟨b',hstat,hheld'⟩ := serves.stat hheld .root
  have hworld : w.stat P root = (.ok tree.info,⟨b',w.calls ++ [.stat root]⟩) := by
    simp only [FsWorld.stat, hstat]
  rw [hworld] at hopened
  dsimp only at hopened
  by_cases htype : tree.info.type ≠ if kind = kindFile then entryFile else entryDir
  · rw [if_pos htype] at hopened
    cases hopened
  rw [if_neg htype] at hopened
  rw [ne_eq, not_not] at htype
  by_cases hkind : kind = kindFile
  · rw [if_pos hkind] at htype
    obtain ⟨file,remaining,w₁,s₁,hopen,hheld₁,hdirs,hreading⟩ := reading_openFile
      (r := newReader slot root tree.info kind flags) (w := ⟨b',w.calls ++ [.stat root]⟩) serves hheld' .root htype rfl
    rw [if_pos hkind, hopen] at hopened
    cases hopened
    refine ⟨?_,rfl⟩
    unfold fsStream
    rw [if_pos hkind]
    exact .single (if_pos hkind) hkind hheld₁ hreading rfl
  · rw [if_neg hkind] at htype
    obtain ⟨dir,b₁,hopen,hfresh,hheld₁⟩ := serves.dirOpen hheld' .root htype
    rw [if_neg hkind] at hopened
    simp only [FsWorld.dirOpen, hopen] at hopened
    cases hopened
    refine ⟨?_,rfl⟩
    have hstacked : Stacked root tree (s.setDir dir (some tree.entries)) root
        [⟨⟨slot,(w.calls ++ [FsCall.stat root]).length,dir⟩,root.length⟩] [⟨root,tree.entries⟩] :=
      ⟨List.prefix_rfl,rfl,Function.update_self ..,fun outer houter => absurd houter (List.not_mem_nil),
        ⟨tree,.root,fun entry hentry => hentry⟩,trivial⟩
    have hlevels : levelsLeft (walksDeep kind flags) [⟨root,tree.entries⟩] = fsEntries root tree kind flags :=
      Feed.append_nothing _
    unfold fsStream
    rw [if_neg hkind, ← hlevels]
    exact .walk (if_neg hkind) ((kind_cases hrange).resolve_left hkind) hheld₁ hstacked (by simp [maxDepth])

/-- What is read of a tree does not depend on the capacities of the reads, nor on how the
backend cuts up the files: it is the stream of the tree. -/
theorem fs_reader_stream {s : FsOpened H} {w w' : FsWorld β H} {slot : ℕ} {kind flags : UInt8} {r : FsReader H}
    (hheld : holds w.env s) (hopened : readerOpen P w slot root kind flags = (.ok r,w')) (capacities : List ℕ)
    (hpos : ∀ capacity ∈ capacities, 0 < capacity) :
    Delivered (decide (kind ≠ kindTree)) (fsStream root tree kind flags) capacities (readerReads P capacities (r,w')) := by
  have htracks := tracks_readerOpen serves hheld hopened
  have hstep : ∀ (reader : FsReader H × FsWorld β H) feed capacity,
      (Tracks holds root tree reader.1 reader.2 feed ∧ reader.1.kind = kind) → 0 < capacity →
      (nextBlock P reader capacity).1 = (feed.read (decide (kind ≠ kindTree)) capacity).1 ∧
        ∀ block, (nextBlock P reader capacity).1 = .ok (block,false) →
          Tracks holds root tree (nextBlock P reader capacity).2.1 (nextBlock P reader capacity).2.2
            (feed.read (decide (kind ≠ kindTree)) capacity).2 ∧ (nextBlock P reader capacity).2.1.kind = kind := by
    rintro reader feed capacity ⟨htracks,hkind⟩ hcapacity
    have hread := readerRead_eq serves htracks hcapacity
    rwa [hkind] at hread
  have hreads := reads_congr (nextBlock P) (Feed.read (decide (kind ≠ kindTree))) _ hstep hpos (s := (r,w')) htracks
  unfold readerReads
  rw [hreads]
  exact delivered_reads _ _ _

end

/-- `sd:/`, with `a` of three bytes and a directory `b` in it. -/
def sampleRoot : Path := [115,100,58,47]

def sampleFile : FsNode := .file 1 0 [10,20,30] (by decide)

def sampleDir : FsNode := .dir 0 1 0 []

def sampleTree : FsNode := .dir 0 1 0 [(⟨[97],by decide⟩,sampleFile),(⟨[98],by decide⟩,sampleDir)]

def sampleTable (path : Path) : Option FsNode :=
  if path = sampleRoot then some sampleTree
  else if path = sampleRoot ++ [97] then some sampleFile
  else if path = sampleRoot ++ [98] then some sampleDir
  else none

theorem sampleTable_at {path : Path} {node : FsNode} (h : FsNode.At sampleRoot sampleTree path node) :
    sampleTable path = some node := by
  have hcases : (path = sampleRoot ∧ node = sampleTree) ∨ (path = sampleRoot ++ [97] ∧ node = sampleFile) ∨
      (path = sampleRoot ++ [98] ∧ node = sampleDir) := by
    induction h with
    | root => exact .inl ⟨rfl,rfl⟩
    | child parent entry reached ih =>
      obtain rfl := childPath_of_entryPath reached
      rcases ih with ⟨rfl,rfl⟩ | ⟨rfl,rfl⟩ | ⟨rfl,rfl⟩
      · simp only [sampleTree, FsNode.entries, List.mem_cons, Prod.mk.injEq, List.not_mem_nil, or_false] at entry
        rcases entry with ⟨rfl,rfl⟩ | ⟨rfl,rfl⟩
        · exact .inr (.inl ⟨rfl,rfl⟩)
        · exact .inr (.inr ⟨rfl,rfl⟩)
      · simp [sampleFile, FsNode.entries] at entry
      · simp [sampleDir, FsNode.entries] at entry
  rcases hcases with ⟨rfl,rfl⟩ | ⟨rfl,rfl⟩ | ⟨rfl,rfl⟩
  · rfl
  · rfl
  · rfl

/-- Nothing is open. -/
def sampleWorld : FsWorld MemoryFs ℕ := ⟨(⟨fun _ => none,fun _ => none⟩,0),[]⟩

/-- A listing of 30 bytes in blocks of 7, 15, 8 and 4 bytes: the end shows in an empty block. -/
theorem fs_reader_stream_sample :
    ∃ r w, readerOpen (memoryBackend sampleTable 0) sampleWorld 0 sampleRoot kindTree flagRecursive = (.ok r,w) ∧
      (fsStream sampleRoot sampleTree kindTree flagRecursive).items.length = 30 ∧
      Delivered false (fsStream sampleRoot sampleTree kindTree flagRecursive) [7,15,8,4]
        (readerReads (memoryBackend sampleTable 0) [7,15,8,4] (r,w)) := by
  have hopened : readerOpen (memoryBackend sampleTable 0) sampleWorld 0 sampleRoot kindTree flagRecursive =
      (.ok _,_) := rfl
  have hserves := serves_memoryBackend sampleTable 0 fun _ _ h => sampleTable_at h
  have hheld : MemoryFs.Holds sampleWorld.env ⟨fun _ => none,fun _ => none⟩ := ⟨rfl,fun _ _ => rfl⟩
  exact ⟨_,_,hopened,by decide,fs_reader_stream hserves hheld hopened [7,15,8,4] (by decide)⟩

end Bvstk.Fs
