import Bvstk.Fat.AtomicWrite

/-! # Profile files of the configuration store

`write_device_file`, which keeps a backup while it replaces a profile, and
`recover_device_configs`, which brings completed backups back at boot.
-/
namespace Bvstk.Fat
open Bvstk.Fs Bvstk.Config CrashRun

/-- What follows the last `/` of a path. -/
def afterLastSlash (path : Path) : Name := (path.reverse.takeWhile (· != slash)).reverse

/-- `.json.bak`. -/
def jsonBakEnding : Name := jsonExtension ++ bakEnding

/-- Does the name end in `.json.bak`, in any case of the letters? -/
def endsInJsonBak (name : Name) : Bool :=
  (name.drop (name.length - jsonBakEnding.length)).map toLower == jsonBakEnding

/-- Sizes of the path buffers, and `I2C_CFG_FILE_NAME_MAX`. -/
def devicePathBuffer : ℕ := 200
def fileNameMax : ℕ := 48

section
variable {σ : Type} (F : FatFs σ)

/-- `file_exists`. -/
def fileExists (path : Path) (r : Run σ) : Bool × Run σ :=
  let (found,r) := r.call fun s => F.stat s path
  (decide (found = .ok false),r)

/-- `profile_file_present`; nothing for −1. -/
def profileFilePresent (path : Path) (r : Run σ) : Option Bool × Run σ :=
  match r.call fun s => F.stat s path with
  | (.error .noFile,r) => (some false,r)
  | (.error .noPath,r) => (some false,r)
  | (.error _,r) => (none,r)
  | (.ok directory,r) => (if directory then none else some true,r)

/-! ## Replacing a profile -/

/-- The part of `write_device_file` that makes room: an old backup is removed, and the
present file becomes the backup. -/
def moveToBackup (path backup : Path) (r : Run σ) : Bool × Run σ :=
  let (removed,r) := r.call fun s => F.unlink s backup
  if removed ≠ .ok () ∧ removed ≠ .error .noFile then (false,r)
  else
    let (renamed,r) := r.call fun s => F.rename s path backup
    (decide (renamed = .ok ()),r)

/-- The last part of `write_device_file`. -/
def installTemporary (path tmp backup : Path) (hadFile : Bool) (r : Run σ) : Bool × Run σ :=
  let (renamed,r) := r.call fun s => F.rename s tmp path
  if renamed = .ok () then (true,r)
  else if hadFile then (false,(r.call fun s => F.rename s backup path).2)
  else (false,r)

/-- `write_device_file`. -/
def writeDeviceFile (path : Path) (data : List UInt8) (r : Run σ) : Bool × Run σ :=
  let tmp := path ++ tmpEnding
  let backup := path ++ bakEnding
  let (hadFile,r) := fileExists F path r
  if devicePathBuffer ≤ tmp.length ∨ devicePathBuffer ≤ backup.length then (false,r)
  else
    let (opened,r) := r.call fun s => F.create s tmp
    if opened ≠ .ok () then (false,r)
    else
      let (written,r) := r.call fun s => F.write s tmp data
      -- An incomplete write is not synced, and fails below.
      let (synced,r) := if written = .ok data.length then r.call fun s => F.sync s tmp else (.ok (),r)
      let (closed,r) := r.call fun s => F.close s tmp
      if synced ≠ .ok () ∨ closed ≠ .ok () ∨ written ≠ .ok data.length then (false,r)
      else if hadFile then
        match moveToBackup F path backup r with
        | (false,r) => (false,r)
        | (true,r) => installTemporary F path tmp backup true r
      else installTemporary F path tmp backup false r

/-! ## Recovery -/

/-- What `recover_device_configs_level` does with a file of a directory: unless it is the
backup of a profile it is passed over. `bundles` tells the top directory. -/
def recoverFile (bundles : Bool) (path : Path) (fname : Name) (r : Run σ) : Bool × Run σ :=
  if fname.length < 10 ∨ endsInJsonBak fname = false then (true,r)
  else
    let backup := path ++ slash :: fname
    if devicePathBuffer ≤ backup.length then (false,r)
    else
      let canonical := backup.take (backup.length - 4)
      let relative := afterLastSlash path ++ slash :: afterLastSlash canonical
      if isRegisterMap (afterLastSlash canonical) = true then (true,r)
      else if bundles = false ∧ (fileNameMax ≤ relative.length ∨ devicePathValid relative = false) then (true,r)
      else
        match profileFilePresent F canonical r with
        | (none,r) => (false,r)
        | (some true,r) => (true,r)
        | (some false,r) => copyFileAtomic F backup canonical configBufferSize r

/-- The loop over the entries of a directory; `recurse` is the call for a directory in it. -/
def recoverEntries (bundles : Bool) (recurse : Path → Run σ → Bool × Run σ) (path : Path) :
    List FilInfo → Run σ → Bool × Run σ
  | entries, r =>
    match r.call fun s => F.readdir s path with
    | (.error _,r) => (false,r)
    | (.ok (),r) =>
      match entries with
      | [] => (true,r)
      | entry :: entries =>
        if entry.fname = [46] ∨ entry.fname = [46,46] then recoverEntries bundles recurse path entries r
        else if bundles = true ∧ entry.directory = true then
          let canonical := path ++ slash :: entry.fname
          if devicePathBuffer ≤ canonical.length then (false,r)
          else
            match recurse canonical r with
            | (false,r) => (false,r)
            | (true,r) => recoverEntries bundles recurse path entries r
        else if entry.directory = true then recoverEntries bundles recurse path entries r
        else
          match recoverFile F bundles path entry.fname r with
          | (false,r) => (false,r)
          | (true,r) => recoverEntries bundles recurse path entries r

/-- `recover_device_configs_level`. -/
def recoverLevel (bundles : Bool) (recurse : Path → Run σ → Bool × Run σ) (path : Path) (r : Run σ) :
    Bool × Run σ :=
  match r.call fun s => F.opendir s path with
  | (.error .noPath,r) => (true,r)
  | (.error .noFile,r) => (true,r)
  | (.error _,r) => (false,r)
  | (.ok entries,r) =>
    let (recovered,r) := recoverEntries F bundles recurse path entries r
    (recovered,(r.call fun s => F.closedir s path).2)

/-- The directory of a device; there the recursion ends. -/
def recoverBundle : Path → Run σ → Bool × Run σ := recoverLevel F false fun _ r => (true,r)

/-- `recover_device_configs`. -/
def recoverDeviceConfigs : Path → Run σ → Bool × Run σ := recoverLevel F true (recoverBundle F)

end

/-! ## Where the profiles are -/

/-- `config` and `configs`, `i2c` and `mdio`. -/
def configDirName (fallback : Bool) : Name :=
  if fallback then [99,111,110,102,105,103,115] else [99,111,110,102,105,103]

def busDirName (mdio : Bool) : Name := if mdio then [109,100,105,111] else [105,50,99]

/-- The four directories of profiles on the drive, such as `0:/config/i2c`. -/
def profileRoot (drive : UInt8) (fallback mdio : Bool) : Path :=
  ([drive,58] ++ slash :: configDirName fallback) ++ slash :: busDirName mdio

/-- The canonical profile of a device, within its directory and on the drive. -/
def canonicalProfileName (device : Name) : Path := device ++ slash :: (device ++ jsonExtension)

def profilePath (root : Path) (device : Name) : Path :=
  (root ++ slash :: device) ++ slash :: (device ++ jsonExtension)

end Bvstk.Fat
