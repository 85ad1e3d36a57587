import Bvstk.Fs.Reader
import Bvstk.Library.BlockStream
import Mathlib.Logic.Function.Basic

/-! # Trees and their streams

What a backend shows when nothing under it changes is a tree, and the tree alone says which
bytes a reader of each kind should deliver. The handles of such a backend may give a file in
pieces of any length.
-/
namespace Bvstk.Fs
open BlockStream

/-! ## Trees -/

/-- The name of an entry; an empty one would end the listing. -/
abbrev FsName := { name : Path // name ≠ [] }

/-- What there is under a path. -/
inductive FsNode where
  | file (stamp : UInt32) (attributes : UInt8) (content : List UInt8) (fits : content.length < 2^64)
  | dir (size : UInt64) (stamp : UInt32) (attributes : UInt8) (entries : List (FsName × FsNode))
  | other (info : FsInfo) (special : info.type ≠ entryFile ∧ info.type ≠ entryDir)

def FsNode.info : FsNode → FsInfo
  | .file stamp attributes content _ => ⟨UInt64.ofNat content.length,stamp,entryFile,attributes⟩
  | .dir size stamp attributes _ => ⟨size,stamp,entryDir,attributes⟩
  | .other info _ => info

def FsNode.content : FsNode → List UInt8
  | .file _ _ content _ => content
  | _ => []

def FsNode.entries : FsNode → List (FsName × FsNode)
  | .dir _ _ _ entries => entries
  | _ => []

/-- The path of a directory, ready for a name to follow. -/
def parentPath (path : Path) : Path := if path = [] ∨ path.getLast? = some slash then path else path ++ [slash]

def childPath (path name : Path) : Path := parentPath path ++ name

/-- The path of an entry, if the reader takes its name and has room for it. -/
def entryPath (path name : Path) : Except FsError Path :=
  if validComponent name = false then .error .invalid
  else if pathCapacity ≤ (parentPath path).length ∨ pathCapacity ≤ (childPath path name).length then .error .range
  else .ok (childPath path name)

/-- `node` is what a reader of a tree with this root finds under `path`. -/
inductive FsNode.At (root : Path) (tree : FsNode) : Path → FsNode → Prop where
  | root : At root tree root tree
  | child {path path' : Path} {node child : FsNode} {name : FsName} (parent : At root tree path node)
      (entry : (name,child) ∈ node.entries) (reached : entryPath path name = .ok path') : At root tree path' child

/-! ## Backends -/

/-- What is left behind the open handles. -/
structure FsOpened (H : Type) where
  files : H → Option (List UInt8)
  dirs : H → Option (List (FsName × FsNode))

section
variable {β H : Type} [DecidableEq H]

def FsOpened.setFile (s : FsOpened H) (file : H) (left : Option (List UInt8)) : FsOpened H :=
  { s with files := Function.update s.files file left }

def FsOpened.setDir (s : FsOpened H) (dir : H) (left : Option (List (FsName × FsNode))) : FsOpened H :=
  { s with dirs := Function.update s.dirs dir left }

/-- The backend serves the tree: `holds b s` says that `s` is what its state `b` has open. A
directory gives its entries one by one and then an empty name, a file any positive number of
the bytes left in it up to the number asked for. -/
structure Serves (P : FsBackend β H) (root : Path) (tree : FsNode) (holds : β → FsOpened H → Prop) : Prop where
  stat : ∀ {b s path node}, holds b s → FsNode.At root tree path node →
    ∃ b', P.stat b path = (.ok node.info,b') ∧ holds b' s
  fileOpen : ∀ {b s path node}, holds b s → FsNode.At root tree path node → node.info.type = entryFile →
    ∃ file b', P.fileOpen b path = (.ok (file,node.info.size),b') ∧ holds b' (s.setFile file (some node.content))
  fileRead : ∀ {b s file left capacity}, holds b s → s.files file = some left → left ≠ [] → 0 < capacity →
    ∃ n b', 0 < n ∧ n ≤ capacity ∧ n ≤ left.length ∧ P.fileRead b file capacity = (.ok (left.take n),b') ∧
      holds b' (s.setFile file (some (left.drop n)))
  fileClose : ∀ {b s file left}, holds b s → s.files file = some left →
    holds (P.fileClose b file) (s.setFile file none)
  dirOpen : ∀ {b s path node}, holds b s → FsNode.At root tree path node → node.info.type = entryDir →
    ∃ dir b', P.dirOpen b path = (.ok dir,b') ∧ s.dirs dir = none ∧ holds b' (s.setDir dir (some node.entries))
  dirRead : ∀ {b s dir name node left}, holds b s → s.dirs dir = some ((name,node) :: left) →
    ∃ b', P.dirRead b dir = (.ok (name.val,node.info),b') ∧ holds b' (s.setDir dir (some left))
  dirEnd : ∀ {b s dir}, holds b s → s.dirs dir = some [] →
    ∃ info b', P.dirRead b dir = (.ok ([],info),b') ∧ holds b' s
  dirClose : ∀ {b s dir left}, holds b s → s.dirs dir = some left →
    holds (P.dirClose b dir) (s.setDir dir none)

end

/-! ## A backend in memory -/

/-- What is open, and the next handle. -/
abbrev MemoryFs := FsOpened ℕ × ℕ

/-- A backend that looks every path up in a table and reads at most `chunk + 1` bytes at once. -/
def memoryBackend (table : Path → Option FsNode) (chunk : ℕ) : FsBackend MemoryFs ℕ where
  volumeCount b := (0,b)
  volume b _ := (.error .range,b)
  stat b path :=
    match table path with
    | none => (.error .notFound,b)
    | some node => (.ok node.info,b)
  fileOpen b path :=
    match table path with
    | none => (.error .notFound,b)
    | some node => (.ok (b.2,node.info.size),b.1.setFile b.2 (some node.content),b.2 + 1)
  fileRead b file capacity :=
    match b.1.files file with
    | none => (.error .invalid,b)
    | some left =>
      let n := min (chunk + 1) (min capacity left.length)
      (.ok (left.take n),b.1.setFile file (some (left.drop n)),b.2)
  fileClose b file := (b.1.setFile file none,b.2)
  dirOpen b path :=
    match table path with
    | none => (.error .notFound,b)
    | some node => (.ok b.2,b.1.setDir b.2 (some node.entries),b.2 + 1)
  dirRead b dir :=
    match b.1.dirs dir with
    | none => (.error .invalid,b)
    | some [] => (.ok ([],⟨0,0,0,0⟩),b)
    | some ((name,node) :: left) => (.ok (name.val,node.info),b.1.setDir dir (some left),b.2)
  dirClose b dir := (b.1.setDir dir none,b.2)

/-- The next handle is not in use. -/
def MemoryFs.Holds (b : MemoryFs) (s : FsOpened ℕ) : Prop := s = b.1 ∧ ∀ dir, b.2 ≤ dir → s.dirs dir = none

theorem MemoryFs.Holds.setDir {b : MemoryFs} {s : FsOpened ℕ} (h : b.Holds s) {dir next : ℕ}
    (hdir : dir < next) (hnext : b.2 ≤ next) (left : Option (List (FsName × FsNode))) :
    MemoryFs.Holds (b.1.setDir dir left,next) (s.setDir dir left) := by
  obtain ⟨rfl,hfresh⟩ := h
  refine ⟨rfl,fun other hother => ?_⟩
  have hne : other ≠ dir := by
    simp only at hother
    omega
  exact (Function.update_of_ne hne _ _).trans (hfresh other (hnext.trans hother))

theorem lt_of_opened {b : MemoryFs} {s : FsOpened ℕ} (h : b.Holds s) {dir : ℕ} {left : List (FsName × FsNode)}
    (hopen : s.dirs dir = some left) : dir < b.2 := by
  by_contra hge
  rw [h.2 dir (not_lt.mp hge)] at hopen
  cases hopen

theorem serves_memoryBackend (table : Path → Option FsNode) {root : Path} {tree : FsNode} (chunk : ℕ)
    (htable : ∀ path node, FsNode.At root tree path node → table path = some node) :
    Serves (memoryBackend table chunk) root tree MemoryFs.Holds where
  stat {b s path node} h hat := by
    refine ⟨b,?_,h⟩
    simp [memoryBackend, htable path node hat]
  fileOpen {b s path node} h hat hfile := by
    refine ⟨b.2,(b.1.setFile b.2 (some node.content),b.2 + 1),?_,?_⟩
    · simp [memoryBackend, htable path node hat]
    · obtain ⟨rfl,hfresh⟩ := h
      exact ⟨rfl,fun dir hdir => hfresh dir (Nat.le_of_succ_le hdir)⟩
  fileRead {b s file left capacity} h hopen hleft hpos := by
    obtain ⟨rfl,hfresh⟩ := h
    have hlength := List.length_pos_iff.mpr hleft
    refine ⟨min (chunk + 1) (min capacity left.length),
      (b.1.setFile file (some (left.drop (min (chunk + 1) (min capacity left.length)))),b.2),by omega,by omega,by omega,?_,
      rfl,hfresh⟩
    simp [memoryBackend, hopen]
  fileClose {b s file left} h _ := by
    obtain ⟨rfl,hfresh⟩ := h
    exact ⟨rfl,hfresh⟩
  dirOpen {b s path node} h hat hdir := by
    refine ⟨b.2,(b.1.setDir b.2 (some node.entries),b.2 + 1),?_,h.2 b.2 le_rfl,?_⟩
    · simp [memoryBackend, htable path node hat]
    · exact h.setDir (Nat.lt_succ_self _) (Nat.le_succ _) _
  dirRead {b s dir name node left} h hopen := by
    refine ⟨(b.1.setDir dir (some left),b.2),?_,?_⟩
    · obtain ⟨rfl,hfresh⟩ := h
      simp [memoryBackend, hopen]
    · exact h.setDir (lt_of_opened h hopen) le_rfl _
  dirEnd {b s dir} h hopen := by
    refine ⟨⟨0,0,0,0⟩,b,?_,h⟩
    obtain ⟨rfl,hfresh⟩ := h
    simp [memoryBackend, hopen]
  dirClose {b s dir left} h hopen := h.setDir (lt_of_opened h hopen) le_rfl _

/-! ## The walk -/

/-- An entry of the walk, with its whole path. -/
structure FsEntry where
  path : Path
  node : FsNode

mutual

/-- The entries of a tree in the order of the walk; `deep` walks into directories, of which
`room` more may be open. -/
def walkNode (deep : Bool) (path : Path) : FsNode → (room : ℕ) → Feed FsEntry FsError
  | .file stamp attributes content fits, _ => ⟨[⟨path,.file stamp attributes content fits⟩],none⟩
  | .other _ _, _ => ⟨[],some .unsupported⟩
  | .dir size stamp attributes entries, room =>
    match deep, room with
    | false, _ => ⟨[⟨path,.dir size stamp attributes entries⟩],none⟩
    | true, 0 => ⟨[],some .range⟩
    | true, room + 1 => (walkEntries deep path entries room).after [⟨path,.dir size stamp attributes entries⟩]

def walkEntry (deep : Bool) (path : Path) : FsName × FsNode → (room : ℕ) → Feed FsEntry FsError
  | (name,node), room =>
    match entryPath path name with
    | .error e => ⟨[],some e⟩
    | .ok path => walkNode deep path node room

def walkEntries (deep : Bool) (path : Path) : List (FsName × FsNode) → (room : ℕ) → Feed FsEntry FsError
  | [], _ => ⟨[],none⟩
  | entry :: entries, room => (walkEntry deep path entry room).append (walkEntries deep path entries room)

end

/-! ## The stream -/

/-- Whether directories are walked into. -/
def walksDeep (kind flags : UInt8) : Bool := decide (kind = kindTar ∨ flags &&& flagRecursive ≠ 0)

/-- What a stream says about an entry: a record, or a header and the file filled up to blocks of
512 bytes. -/
def entryBytes (kind : UInt8) (start : ℕ) (entry : FsEntry) : Except FsError (List UInt8) :=
  let relative := entry.path.drop start
  if kind = kindTree then .ok (treeRecord relative entry.node.info)
  else
    match tarEntry relative entry.node.info with
    | none => .error .range
    | some header => .ok (header ++ (entry.node.content ++ zeros ((512 - entry.node.content.length % 512) % 512)))

/-- The end of an archive. -/
def streamEnd (kind : UInt8) : List UInt8 := if kind = kindTar then zeros 1024 else []

/-- The entries of the stream of a directory. -/
def fsEntries (root : Path) (tree : FsNode) (kind flags : UInt8) : Feed FsEntry FsError :=
  walkEntries (walksDeep kind flags) root tree.entries (maxDepth - 1)

/-- The stream of a tree for a kind of reader. -/
def fsStream (root : Path) (tree : FsNode) (kind flags : UInt8) : Feed UInt8 FsError :=
  if kind = kindFile then ⟨tree.content,none⟩
  else
    let entries := fsEntries root tree kind flags
    writeOut (entryBytes kind (relativeStart root)) (streamEnd kind) entries.items entries.failure

end Bvstk.Fs
