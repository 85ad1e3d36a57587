import Bvstk.Config.ProfileMetadata
import Bvstk.Library.PathNames

/-! # The paths of the file commands

`build_path` of `fs_shell.c` with what it calls. The path is put together in a buffer of 256
characters and then cut into names, of which a table keeps 32.
-/
namespace Bvstk.Console.FsShell
open Config PathNames

abbrev Path := List UInt8

def slash : UInt8 := 47
def colon : UInt8 := 58
def dot : UInt8 := 46

/-- `.` and `..`. -/
def dots : Dots UInt8 := ⟨[dot],[dot,dot]⟩

def consolePathMax : ℕ := 128
def consoleCwdLen : ℕ := 64
def fsNameMax : ℕ := 64
def segmentsMax : ℕ := 32

/-- A device that has a context; its root is a drive. -/
structure FsDevice where
  name : Path
  drive : UInt8
  nonempty : name ≠ []
  short : name.length < fsNameMax
  plain : slash ∉ name
  driveNotSlash : drive ≠ slash

def FsDevice.root (d : FsDevice) : Path := [d.drive,colon,slash]

/-- `fs_device_by_name`. -/
def fsDeviceByName (devices : List FsDevice) (name : Path) : Option FsDevice :=
  devices.find? fun d => sameIgnoringCase name d.name

/-- `fs_device_for_path`. -/
def fsDeviceForPath (devices : List FsDevice) (path : Path) : Option FsDevice :=
  if path[1]? ≠ some colon then none else devices.find? fun d => sameIgnoringCase (path.take d.root.length) d.root

/-- The device before a colon, with what follows it. -/
def deviceBeforeColon (devices : List FsDevice) (arg : Path) : Option (FsDevice × Path) :=
  if colon ∈ arg ∧ arg.head? ≠ some colon then
    (fsDeviceByName devices (arg.takeWhile (· ≠ colon))).map fun d => (d,(arg.dropWhile (· ≠ colon)).drop 1)
  else none

/-- The device that the first name of a path is. -/
def deviceFirst (devices : List FsDevice) (arg : Path) : Option (FsDevice × Path) :=
  let name := arg.takeWhile (· ≠ slash)
  if name = [] ∨ fsNameMax ≤ name.length then none
  else (fsDeviceByName devices name).map fun d => (d,arg.dropWhile (· ≠ slash))

def deviceExact (devices : List FsDevice) (arg : Path) : Option (FsDevice × Path) :=
  (fsDeviceByName devices arg).map fun d => (d,[])

/-- The device of a drive with a digit. -/
def deviceOfDrive (devices : List FsDevice) (arg : Path) : Option (FsDevice × Path) :=
  if (∃ c ∈ arg.head?, 48 ≤ c ∧ c ≤ 57) ∧ arg[1]? = some colon then (fsDeviceForPath devices arg).map fun d => (d,arg.drop 2)
  else none

/-- `translate_device_path`. -/
def translateDevicePath (devices : List FsDevice) (arg : Path) (outSize : ℕ) : Option Path :=
  if colon ∈ arg ∧ arg.head? ≠ some colon ∧ fsNameMax ≤ (arg.takeWhile (· ≠ colon)).length then none
  else match (deviceBeforeColon devices arg <|> deviceFirst devices arg <|> deviceExact devices arg <|>
      deviceOfDrive devices arg) with
    | none => none
    | some (d,rest) =>
      let suffix := rest.dropWhile (· = slash)
      if suffix = [] then some d.root
      else if outSize ≤ d.root.length + suffix.length then none
      else some (d.root ++ suffix)

/-- What of a session counts: the drive of its file system, if it has one, and its directory. -/
structure Session where
  drive : Option UInt8
  cwd : Path
  driveNotSlash : drive ≠ some slash
  cwdShort : cwd.length < consoleCwdLen

def Session.root (s : Session) : Path :=
  match s.drive with
  | some drive => [drive,colon,slash]
  | none => [slash]

def Session.base (s : Session) : Path := if s.cwd = [] then s.root else s.cwd

/-- The loop of `normalize_path` over the characters, with the names so far and the one it is in. -/
def segmentLoop (segments : List Path) (name : Path) : Path → List Path
  | [] => enter dots segmentsMax segments name
  | c :: p => if c = slash then segmentLoop (enter dots segmentsMax segments name) [] p else segmentLoop segments (name ++ [c]) p

/-- The loop that writes the names. -/
def writeLoop (outSize : ℕ) (out : Path) : List Path → Option Path
  | [] => if out.length < outSize then some out else none
  | [name] => if outSize ≤ out.length + name.length + 2 then none else writeLoop outSize (out ++ name) []
  | name :: names =>
    if outSize ≤ out.length + name.length + 2 then none else writeLoop outSize (out ++ name ++ [slash]) names

def skipSlash (p : Path) : Path := if p.head? = some slash then p.drop 1 else p

/-- `normalize_path`. -/
def normalizePath (input : Path) (outSize : ℕ) : Option Path :=
  match input.take (consolePathMax * 2 - 1) with
  | [] => none
  | c :: p =>
    if p.head? = some colon then writeLoop outSize [c,colon,slash] (segmentLoop [] [] (skipSlash (p.drop 1)))
    else if c = slash then writeLoop outSize [slash] (segmentLoop [] [] p)
    else none

/-- The text that `build_path` has to cut into names, before its buffer cuts it. -/
def pathText (s : Session) (input : Path) : Path :=
  if input = [] ∨ input = [dot] then s.base
  else if input = [slash] then s.root
  else if input.head? = some slash then s.root ++ input.drop 1
  else if colon ∈ input then input
  else if s.base.getLast? = some slash then s.base ++ input
  else s.base ++ [slash] ++ input

/-- `build_path`; no argument is the same as an empty one. -/
def buildPath (devices : List FsDevice) (s : Session) (arg : Path) (outSize : ℕ) : Option Path :=
  let input := (translateDevicePath devices arg (consolePathMax * 2)).getD arg
  normalizePath ((pathText s input).take (consolePathMax * 2 - 1)) outSize

end Bvstk.Console.FsShell
