import Bvstk.Fs.Path

/-! # The file system backend

`bvstk_fs_backend_t`: the volumes, files and directories a reader works on. All of it is
outside and may answer anything; what is called there is recorded.
-/
namespace Bvstk.Fs

/-- `bvstk_fs_info_t`. -/
structure FsInfo where
  size : UInt64
  stamp : UInt32
  type : UInt8
  attributes : UInt8
  deriving DecidableEq, Repr

def entryFile : UInt8 := 1
def entryDir : UInt8 := 2

/-- `bvstk_fs_volume_t`. -/
structure FsVolume where
  name : Path
  state : UInt8
  deriving DecidableEq, Repr

/-- The functions of the backend; a handle comes with a success only. -/
structure FsBackend (β H : Type) where
  volumeCount : β → ℕ × β
  volume : β → (index : ℕ) → Except FsError FsVolume × β
  stat : β → Path → Except FsError FsInfo × β
  fileOpen : β → Path → Except FsError (H × UInt64) × β
  fileRead : β → H → (capacity : ℕ) → Except FsError (List UInt8) × β
  fileClose : β → H → β
  dirOpen : β → Path → Except FsError H × β
  dirRead : β → H → Except FsError (Path × FsInfo) × β
  dirClose : β → H → β

/-- A handle, with the slot of the reader that asked for it and the number of the call
that returned it: the backend may use a value again once it is closed. -/
structure FsHandle (H : Type) where
  owner : ℕ
  opened : ℕ
  value : H

/-- What is called outside, with the handle an open has returned. -/
inductive FsCall (H : Type) where
  | volumeCount
  | volume (index : ℕ)
  | stat (path : Path)
  | fileOpen (path : Path) (file : Option (FsHandle H))
  | fileRead (file : FsHandle H) (capacity : ℕ)
  | fileClose (file : FsHandle H)
  | dirOpen (path : Path) (dir : Option (FsHandle H))
  | dirRead (dir : FsHandle H)
  | dirClose (dir : FsHandle H)

/-- The outside, and the calls made so far. -/
structure FsWorld (β H : Type) where
  env : β
  calls : List (FsCall H)

section
variable {β H : Type} (P : FsBackend β H) (w : FsWorld β H)

def FsWorld.volumeCount : ℕ × FsWorld β H :=
  let (count,env) := P.volumeCount w.env
  (count,⟨env,w.calls ++ [.volumeCount]⟩)

def FsWorld.volume (index : ℕ) : Except FsError FsVolume × FsWorld β H :=
  let (result,env) := P.volume w.env index
  (result,⟨env,w.calls ++ [.volume index]⟩)

def FsWorld.stat (path : Path) : Except FsError FsInfo × FsWorld β H :=
  let (result,env) := P.stat w.env path
  (result,⟨env,w.calls ++ [.stat path]⟩)

def FsWorld.fileOpen (owner : ℕ) (path : Path) : Except FsError (FsHandle H × UInt64) × FsWorld β H :=
  match P.fileOpen w.env path with
  | (.error e,env) => (.error e,⟨env,w.calls ++ [.fileOpen path none]⟩)
  | (.ok (value,size),env) =>
    let file : FsHandle H := ⟨owner,w.calls.length,value⟩
    (.ok (file,size),⟨env,w.calls ++ [.fileOpen path (some file)]⟩)

def FsWorld.fileRead (file : FsHandle H) (capacity : ℕ) : Except FsError (List UInt8) × FsWorld β H :=
  let (result,env) := P.fileRead w.env file.value capacity
  (result,⟨env,w.calls ++ [.fileRead file capacity]⟩)

def FsWorld.fileClose (file : FsHandle H) : FsWorld β H :=
  ⟨P.fileClose w.env file.value,w.calls ++ [.fileClose file]⟩

def FsWorld.dirOpen (owner : ℕ) (path : Path) : Except FsError (FsHandle H) × FsWorld β H :=
  match P.dirOpen w.env path with
  | (.error e,env) => (.error e,⟨env,w.calls ++ [.dirOpen path none]⟩)
  | (.ok value,env) =>
    let dir : FsHandle H := ⟨owner,w.calls.length,value⟩
    (.ok dir,⟨env,w.calls ++ [.dirOpen path (some dir)]⟩)

def FsWorld.dirRead (dir : FsHandle H) : Except FsError (Path × FsInfo) × FsWorld β H :=
  let (result,env) := P.dirRead w.env dir.value
  (result,⟨env,w.calls ++ [.dirRead dir]⟩)

def FsWorld.dirClose (dir : FsHandle H) : FsWorld β H :=
  ⟨P.dirClose w.env dir.value,w.calls ++ [.dirClose dir]⟩

end

end Bvstk.Fs
