import Bvstk.Fs.Tar
import Bvstk.Library.Wire

/-! # The reader

`bvstk_fs_reader.c`: a file, a listing of a tree or an archive as one stream of bytes that
is read in blocks. The walk keeps a stack of open directories; what it has to say about an
entry is staged, and handed out before anything else.
-/
namespace Bvstk.Fs
open Wire

def maxDepth : ℕ := 16

def kindFile : UInt8 := 1
def kindTree : UInt8 := 2
def kindTar : UInt8 := 3
def flagRecursive : UInt8 := 1

inductive Phase where
  | walk | fileData | filePadding | finished
  deriving DecidableEq, Repr

/-- An open directory of the walk, and the length of its path. -/
structure FsDir (H : Type) where
  handle : FsHandle H
  pathLen : ℕ

/-- `bvstk_fs_reader_t` in slot `slot` of the session. The innermost directory comes first;
`stage` is the part of the staged bytes that has not been handed out. -/
structure FsReader (H : Type) where
  slot : ℕ
  root : Path
  path : Path
  dirs : List (FsDir H)
  relativeOffset : ℕ
  file : Option (FsHandle H)
  info : FsInfo
  remaining : ℕ
  totalSize : UInt64
  padding : ℕ
  stage : Bytes
  kind : UInt8
  flags : UInt8
  phase : Phase

section
variable {β H : Type} (P : FsBackend β H)

/-- The loop of `bvstk_fs_reader_close`. -/
def closeDirs : List (FsDir H) → FsWorld β H → FsWorld β H
  | [], w => w
  | dir :: dirs, w => closeDirs dirs (w.dirClose P dir.handle)

def readerClose (r : FsReader H) (w : FsWorld β H) : FsReader H × FsWorld β H :=
  let w :=
    match r.file with
    | none => w
    | some file => w.fileClose P file
  ({ r with file := none, dirs := [], phase := .finished },closeDirs P r.dirs w)

/-- The file stays open when its size is not what was listed. -/
def openFile (r : FsReader H) (w : FsWorld β H) : Option FsError × FsReader H × FsWorld β H :=
  match w.fileOpen P r.slot r.path with
  | (.error e,w) => (some e,r,w)
  | (.ok (file,size),w) =>
    let r := { r with file := some file }
    if size ≠ r.info.size then (some .changed,r,w) else (none,{ r with remaining := size.toNat },w)

/-- The length of the path in front of the names in the stream. -/
def relativeStart (path : Path) : ℕ :=
  path.length + if path ≠ [] ∧ path.getLast? ≠ some slash then 1 else 0

/-- The reader before anything is opened. -/
def newReader (slot : ℕ) (path : Path) (info : FsInfo) (kind flags : UInt8) : FsReader H where
  slot := slot
  root := path
  path := path
  dirs := []
  relativeOffset := relativeStart path
  file := none
  info := info
  remaining := 0
  totalSize := if kind = kindFile then info.size else UInt64.ofNat (2^64 - 1)
  padding := 0
  stage := []
  kind := kind
  flags := flags
  phase := if kind = kindFile then .fileData else .walk

def readerOpen (w : FsWorld β H) (slot : ℕ) (path : Path) (kind flags : UInt8) :
    Except FsError (FsReader H) × FsWorld β H :=
  if pathCapacity ≤ path.length then (.error .range,w)
  else if kind < kindFile ∨ kindTar < kind then (.error .unsupported,w)
  else if (kind ≠ kindTree ∧ flags ≠ 0) ∨ flags &&& ~~~flagRecursive ≠ 0 then (.error .invalid,w)
  else
    match w.stat P path with
    | (.error e,w) => (.error e,w)
    | (.ok info,w) =>
      if info.type ≠ (if kind = kindFile then entryFile else entryDir) then (.error .typeError,w)
      else
        let r := newReader slot path info kind flags
        if kind = kindFile then
          match openFile P r w with
          | (none,r,w) => (.ok r,w)
          | (some e,r,w) => (.error e,(readerClose P r w).2)
        else
          match w.dirOpen P slot path with
          | (.ok dir,w) => (.ok { r with dirs := [⟨dir,path.length⟩] },w)
          | (.error e,w) => (.error e,(readerClose P r w).2)

/-! ## The walk -/

/-- Whether a directory is walked into. -/
def FsReader.enters (r : FsReader H) : Bool :=
  decide (r.info.type = entryDir ∧ (r.kind = kindTar ∨ r.flags &&& flagRecursive ≠ 0))

/-- The part of `next_entry` after a name has been read: `r.path` is the directory. -/
def enterEntry (r : FsReader H) (name : Path) (w : FsWorld β H) : Option FsError × FsReader H × FsWorld β H :=
  let separated := r.path = [] ∨ r.path.getLast? = some slash
  if validComponent name = false then (some .invalid,r,w)
  else if ¬separated ∧ pathCapacity ≤ r.path.length + 1 then (some .range,r,w)
  else
    let parent := if separated then r.path else r.path ++ [slash]
    if pathCapacity ≤ parent.length + name.length then (some .range,r,w)
    else
      let r := { r with path := parent ++ name }
      if r.enters = true then
        if r.dirs.length = maxDepth then (some .range,r,w)
        else
          match w.dirOpen P r.slot r.path with
          | (.error e,w) => (some e,r,w)
          | (.ok dir,w) => (none,{ r with dirs := ⟨dir,r.path.length⟩ :: r.dirs },w)
      else if r.info.type ≠ entryFile ∧ r.info.type ≠ entryDir then (some .unsupported,r,w)
      else (none,r,w)

/-- `next_entry` with the directories `dirs` still open: whether the walk is done. -/
def nextEntry : (dirs : List (FsDir H)) → FsReader H → FsWorld β H → Except FsError Bool × FsReader H × FsWorld β H
  | [], r, w => (.ok true,{ r with dirs := [] },w)
  | dir :: dirs, r, w =>
    let r := { r with path := r.path.take dir.pathLen, dirs := dir :: dirs }
    match w.dirRead P dir.handle with
    | (.error e,w) => (.error e,r,w)
    | (.ok (name,info),w) =>
      if name = [] then nextEntry dirs { r with info := info } (w.dirClose P dir.handle)
      else
        match enterEntry P { r with info := info } name w with
        | (some e,r,w) => (.error e,r,w)
        | (none,r,w) => (.ok false,r,w)

/-! ## Blocks -/

/-- The name of the present entry in the stream. -/
def FsReader.relative (r : FsReader H) : Path := r.path.drop r.relativeOffset

def treeRecord (relative : Path) (info : FsInfo) : Bytes :=
  beBytes 2 (14 + relative.length) ++ [info.type,0] ++
    beBytes 8 (if info.type = entryFile then info.size.toNat else 0) ++ beBytes 2 relative.length ++ relative

/-- Stages what there is to say about the entry the walk has reached. -/
def stageEntry (r : FsReader H) (w : FsWorld β H) : Option FsError × FsReader H × FsWorld β H :=
  if r.kind = kindTree then (none,{ r with stage := treeRecord r.relative r.info },w)
  else
    let (error,r,w) :=
      if r.info.type = entryFile then
        match openFile P r w with
        | (some e,r,w) => (some e,r,w)
        | (none,r,w) => (none,{ r with phase := .fileData },w)
      else (none,r,w)
    match error with
    | some e => (some e,r,w)
    | none =>
      match tarEntry r.relative r.info with
      | none => (some .range,r,w)
      | some stage => (none,{ r with stage := stage },w)

def finishFile (r : FsReader H) (w : FsWorld β H) : Option FsError × FsReader H × FsWorld β H :=
  let (current,w) := w.stat P r.path
  let w :=
    match r.file with
    | none => w
    | some file => w.fileClose P file
  let r := { r with file := none }
  match current with
  | .error e => (some (if e = .notFound then .changed else e),r,w)
  | .ok current =>
    if current.type ≠ entryFile ∨ current.size ≠ r.info.size ∨ current.stamp ≠ r.info.stamp then (some .changed,r,w)
    else if r.kind = kindFile then (none,{ r with phase := .finished },w)
    else (none,{ r with padding := (512 - r.info.size.toNat % 512) % 512, phase := .filePadding },w)

/-- How an iteration of the loop of `bvstk_fs_reader_read` ends. -/
inductive Turn where
  | again | stop | failed (e : FsError)

/-- Goes on unless there is an error. -/
def Turn.of : Option FsError → Turn
  | none => .again
  | some e => .failed e

/-- One iteration with room for `available` bytes: the bytes it hands out. -/
def readTurn (available : ℕ) (r : FsReader H) (w : FsWorld β H) : (Turn × Bytes) × FsReader H × FsWorld β H :=
  if r.stage ≠ [] then ((.again,r.stage.take available),{ r with stage := r.stage.drop available },w)
  else
    match r.phase with
    | .fileData =>
      if r.remaining = 0 then
        let (error,r,w) := finishFile P r w
        ((.of error,[]),r,w)
      else
        match r.file with
        -- the phase is only entered with an open file
        | none => ((.failed .invalid,[]),r,w)
        | some file =>
          let want := min r.remaining available
          match w.fileRead P file want with
          | (.error e,w) => ((.failed e,[]),r,w)
          | (.ok data,w) =>
            if data.length = 0 ∨ want < data.length then ((.failed .changed,[]),r,w)
            else ((.again,data),{ r with remaining := r.remaining - data.length },w)
    | .filePadding =>
      let n := min r.padding available
      let r := { r with padding := r.padding - n }
      ((.again,zeros n),(if r.padding = 0 then { r with phase := .walk } else r),w)
    | .walk =>
      match nextEntry P r.dirs r w with
      | (.error e,r,w) => ((.failed e,[]),r,w)
      | (.ok true,r,w) =>
        ((.again,[]),{ r with phase := .finished, stage := if r.kind = kindTar then zeros 1024 else [] },w)
      | (.ok false,r,w) =>
        let (error,r,w) := stageEntry P r w
        ((.of error,[]),r,w)
    | .finished => ((.stop,[]),r,w)

/-- The loop, with room for `available` more bytes. -/
def readLoop : (fuel available : ℕ) → FsReader H → FsWorld β H → (Option FsError × Bytes) × FsReader H × FsWorld β H
  | 0, _, r, w => ((none,[]),r,w)
  | fuel + 1, available, r, w =>
    if available = 0 then ((none,[]),r,w)
    else
      match readTurn P available r w with
      | ((.stop,data),r,w) => ((none,data),r,w)
      | ((.failed e,data),r,w) => ((some e,data),r,w)
      | ((.again,data),r,w) =>
        let ((error,rest),r,w) := readLoop fuel (available - data.length) r w
        ((error,data ++ rest),r,w)

/-- A byte takes four iterations at most: the end of a file, its padding, the walk and the
byte itself. -/
def readFuel (capacity : ℕ) : ℕ := 4 * capacity + 4

/-- Finishes a file whose last byte exactly fills the block. -/
def finishBlock (r : FsReader H) (w : FsWorld β H) : Option FsError × FsReader H × FsWorld β H :=
  if r.phase = .fileData ∧ r.remaining = 0 ∧ r.stage = [] then finishFile P r w else (none,r,w)

/-- `bvstk_fs_reader_read`: a block and whether it is the last. -/
def readerRead (r : FsReader H) (w : FsWorld β H) (capacity : ℕ) :
    Except FsError (Bytes × Bool) × FsReader H × FsWorld β H :=
  if capacity = 0 then (.error .invalid,r,w)
  else
    let ((error,data),r,w) := readLoop P (readFuel capacity) capacity r w
    let (error,r,w) := if error = none then finishBlock P r w else (error,r,w)
    match error with
    | some e => (.error e,readerClose P r w)
    | none => (.ok (data,decide (r.phase = .finished ∧ r.stage = [])),r,w)

end

end Bvstk.Fs
