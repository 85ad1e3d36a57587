import Bvstk.Fat.FatFs
import Bvstk.Fs.Tar
import Bvstk.Library.CallLog

/-! # Unpacking an archive

`tar_extract_into_dir_fatfs` of `tar.c`. The archive comes through a callback that gives it
in pieces of any size; FatFs may answer anything. What is left of the archive is the state,
and the calls to FatFs are recorded.
-/
namespace Bvstk.Fat
open Bvstk.Fs Bvstk.Config CallLog

def tarBlock : ℕ := 512
/-- `FS_PATH_MAX * 2`. -/
def tarPathMax : ℕ := 256

/-- What is called in FatFs. A file goes by the path it was opened with. -/
inductive ExtractCall where
  | mkdir (path : Path)
  | openWrite (path : Path)
  | write (path : Path) (data : List UInt8)
  | close (path : Path)
  deriving DecidableEq

/-- The callback, by the number of bytes it gives at once, and FatFs. -/
structure ExtractOutside (β : Type) where
  chunk : β → (wanted : ℕ) → ℕ × β
  mkdir : β → Path → Except FatError Unit × β
  openWrite : β → Path → Except FatError Unit × β
  write : β → Path → List UInt8 → Except FatError ℕ × β
  close : β → Path → β

abbrev ExtractWorld (β : Type) := World (List UInt8) β ExtractCall

inductive ExtractEnd where
  | success | failure | unfinished
  deriving DecidableEq, Repr

/-! ## Headers -/

/-- A text up to its NUL. -/
def cString (bytes : List UInt8) : Name := bytes.takeWhile (· != 0)

/-- The loop over the digits; a NUL or a blank ends it. -/
def octalDigits : ℕ → List UInt8 → Option ℕ
  | v, [] => some v
  | v, c :: s =>
    if c = 0 ∨ c = 32 then some v
    else if c < 48 ∨ 55 < c then none
    else octalDigits (v * 8 + (c.toNat - 48)) s

/-- `tar_parse_octal`. -/
def tarParseOctal (field : List UInt8) : Option ℕ :=
  octalDigits 0 (field.dropWhile fun c => c == 32 || c == 0)

/-- The name of an entry: the prefix, if there is one, and the name. The last byte of either
field is taken for a NUL. -/
def relativeName (block : List UInt8) : Name :=
  let name := cString (block.take 99)
  let before := cString ((block.drop 345).take 154)
  if before = [] then name.take 255 else (before ++ slash :: name).take 255

/-- `relpath_safe`. -/
def relpathSafe (name : Name) : Bool :=
  decide (name ≠ [] ∧ name.head? ≠ some slash ∧ colon ∉ name) && !hasDotDot name

/-- The directory with a separator behind it, unless it is empty or has one. -/
def asParent (base : Path) : Path :=
  if base = [] ∨ base.getLast? = some slash then base else base ++ [slash]

/-- `join_under`. -/
def joinUnder (base : Path) (rel : Name) (outSize : ℕ) : Option Path :=
  if outSize < base.length + 1 + rel.length + 1 then none else some (asParent base ++ rel)

section
variable {β : Type} (P : ExtractOutside β)

/-! ## The archive -/

/-- One call of the callback: some of the bytes that are left, or nothing for a failure. -/
def readCallback (wanted : ℕ) (w : ExtractWorld β) : Option (List UInt8) × ExtractWorld β :=
  let (n,env) := P.chunk w.env wanted
  let bytes := w.state.take (min n wanted)
  if bytes = [] then (none,⟨w.state,env,w.calls⟩) else (some bytes,⟨w.state.drop bytes.length,env,w.calls⟩)

/-- The loop of `read_exact`; each turn brings at least one of the bytes left. -/
def readAll : (turns left : ℕ) → ExtractWorld β → Option (List UInt8) × ExtractWorld β
  | _, 0, w => (some [],w)
  | 0, _, w => (none,w)
  | turns + 1, left + 1, w =>
    match readCallback P (left + 1) w with
    | (none,w) => (none,w)
    | (some bytes,w) =>
      match readAll turns (left + 1 - bytes.length) w with
      | (none,w) => (none,w)
      | (some rest,w) => (some (bytes ++ rest),w)

/-- `read_exact`. -/
def readExact (len : ℕ) (w : ExtractWorld β) : Option (List UInt8) × ExtractWorld β := readAll P len len w

/-! ## Directories -/

/-- `f_mkdir`; a directory that is there already will do. -/
def makeDir (path : Path) (w : ExtractWorld β) : Bool × ExtractWorld β :=
  let (result,env) := P.mkdir w.env path
  (decide (result = .ok () ∨ result = .error .exist),⟨w.state,env,w.calls ++ [(w.state,.mkdir path)]⟩)

/-- The loop of `mkdir_p`: a directory at each separator but a first one. -/
def makeDirs : (done : Path) → List UInt8 → ExtractWorld β → Bool × ExtractWorld β
  | _, [], w => (true,w)
  | done, c :: rest, w =>
    if c = slash ∧ done ≠ [] then
      match makeDir P done w with
      | (false,w) => (false,w)
      | (true,w) => makeDirs (done ++ [c]) rest w
    else makeDirs (done ++ [c]) rest w

/-- `mkdir_p`. -/
def mkdirP (path : Path) (w : ExtractWorld β) : Bool × ExtractWorld β :=
  let tmp := path.take (tarPathMax - 1)
  if tmp = [] then (true,w)
  else if tmp.length = 3 ∧ tmp[1]? = some colon ∧ tmp[2]? = some slash then (true,w)
  else
    let tmp := if tmp.getLast? = some slash then tmp.dropLast else tmp
    if tmp.length = 2 ∧ tmp[1]? = some colon then (true,w)
    else
      let drive := if tmp[1]? = some colon ∧ tmp[2]? = some slash then 3 else 0
      match makeDirs P (tmp.take drive) (tmp.drop drive) w with
      | (false,w) => (false,w)
      | (true,w) => makeDir P tmp w

/-! ## Entries -/

def closeFile (path : Path) (w : ExtractWorld β) : ExtractWorld β :=
  ⟨w.state,P.close w.env path,w.calls ++ [(w.state,.close path)]⟩

/-- The loop that copies the data of an entry, `remaining` bytes of it. -/
def copyData (path : Path) : (turns remaining : ℕ) → ExtractWorld β → Bool × ExtractWorld β
  | _, 0, w => (true,w)
  | 0, _, w => (false,w)
  | turns + 1, remaining + 1, w =>
    match readCallback P (min (remaining + 1) 1024) w with
    | (none,w) => (false,closeFile P path w)
    | (some bytes,w) =>
      let (written,env) := P.write w.env path bytes
      let w : ExtractWorld β := ⟨w.state,env,w.calls ++ [(w.state,.write path bytes)]⟩
      if written ≠ .ok bytes.length then (false,closeFile P path w)
      else copyData path turns (remaining + 1 - bytes.length) w

/-- What makes a file of an entry: the data up to the next block are passed over. -/
def extractFile (path : Path) (fsize : ℕ) (w : ExtractWorld β) : Bool × ExtractWorld β :=
  let (opened,env) := P.openWrite w.env path
  let w : ExtractWorld β := ⟨w.state,env,w.calls ++ [(w.state,.openWrite path)]⟩
  if opened ≠ .ok () then (false,w)
  else
    match copyData P path fsize fsize w with
    | (false,w) => (false,w)
    | (true,w) =>
      match readExact P ((tarBlock - fsize % tarBlock) % tarBlock) (closeFile P path w) with
      | (none,w) => (false,w)
      | (some _,w) => (true,w)

/-- The part of a path before its last separator. -/
def parentPath (path : Path) : Path := ((path.reverse.dropWhile (· != slash)).drop 1).reverse

/-- The directory that a file is put into, if its path has one. -/
def makeParent (path : Path) (w : ExtractWorld β) : Bool × ExtractWorld β :=
  if slash ∈ path then
    if tarPathMax ≤ (parentPath path).length then (false,w) else mkdirP P (parentPath path) w
  else (true,w)

/-- What is done for a header that is not all zeros. -/
def extractEntry (dest : Path) (block : List UInt8) (w : ExtractWorld β) : Bool × ExtractWorld β :=
  let rel := relativeName block
  if relpathSafe rel = false then (false,w)
  else
    match tarParseOctal ((block.drop 124).take 12) with
    | none => (false,w)
    | some fsize =>
      match joinUnder dest rel tarPathMax with
      | none => (false,w)
      | some path =>
        if block[156]? = some typeDir then mkdirP P path w
        else
          match makeParent P path w with
          | (false,w) => (false,w)
          | (true,w) => extractFile P path fsize w

/-- The loop over the blocks. Two that are zeros end it. -/
def extractLoop (dest : Path) : (turns zeroBlocks : ℕ) → ExtractWorld β → ExtractEnd × ExtractWorld β
  | 0, _, w => (.unfinished,w)
  | turns + 1, zeroBlocks, w =>
    match readExact P tarBlock w with
    | (none,w) => (.failure,w)
    | (some block,w) =>
      if block.all (· == 0) then
        if 2 ≤ zeroBlocks + 1 then (.success,w) else extractLoop dest turns (zeroBlocks + 1) w
      else
        match extractEntry P dest block w with
        | (false,w) => (.failure,w)
        | (true,w) => extractLoop dest turns 0 w

/-- `tar_extract_into_dir_fatfs`. -/
def tarExtractIntoDir (dest : Path) (w : ExtractWorld β) : ExtractEnd × ExtractWorld β :=
  match mkdirP P dest w with
  | (false,w) => (.failure,w)
  | (true,w) => extractLoop P dest (w.state.length + 1) 0 w

end

end Bvstk.Fat
