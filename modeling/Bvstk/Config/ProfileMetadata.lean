import Bvstk.Base.Status
import Bvstk.Config.Model
import Mathlib.Data.List.Basic

/-! # Checks on profile metadata

The part of `bvstk_device_profile.c` that decides which names, file names and identifiers
a device configuration may carry.
-/
namespace Bvstk.Config

/-! ## Characters -/

def isLower (c : UInt8) : Bool := decide (97 ≤ c ∧ c ≤ 122)
def isUpper (c : UInt8) : Bool := decide (65 ≤ c ∧ c ≤ 90)
def digit (c : UInt8) : Bool := decide (48 ≤ c ∧ c ≤ 57)
def toLower (c : UInt8) : UInt8 := if isUpper c then c + 32 else c

/-- Letters, digits, underscore and hyphen. -/
def isWord (c : UInt8) : Bool := isLower c || isUpper c || digit c || c == 95 || c == 45

/-- `strstr(s, "..")`. -/
def hasDotDot : Name → Bool
  | a :: b :: s => (a == 46 && b == 46) || hasDotDot (b :: s)
  | _ => false

/-- `strcasecmp(a, b) == 0`. -/
def sameIgnoringCase (a b : Name) : Bool := a.map toLower == b.map toLower

/-! ## File names -/

/-- `register_map.json`. -/
def registerMapName : Name := [114,101,103,105,115,116,101,114,95,109,97,112,46,106,115,111,110]

/-- `.json` and `.js`. -/
def jsonExtension : Name := [46,106,115,111,110]
def jsExtension : Name := [46,106,115]

/-- `profile.json`. -/
def profileLeaf : Name := [112,114,111,102,105,108,101] ++ jsonExtension

/-- `bvstk_device_profile_is_register_map`; the suffix in the long form starts with an
underscore. -/
def isRegisterMap (filename : Name) : Bool :=
  let suffix := 95 :: registerMapName
  filename == registerMapName ||
    (decide (suffix.length < filename.length) &&
      (filename.drop (filename.length - suffix.length)).map toLower == suffix)

/-- Does the name end in `.json`, in any case of the letters? -/
def endsInJson (name : Name) : Bool :=
  (name.drop (name.length - jsonExtension.length)).map toLower == jsonExtension

/-- `bvstk_device_profile_path_valid`: `<device>/<device>.json`, the legacy
`<device>/profile.json`, or a flat leaf. -/
def devicePathValid (path : Name) : Bool :=
  decide (path.length < mdioFileNameMax ∧ 6 ≤ path.length) && !hasDotDot path &&
    (path.all fun c => isWord c || c == 46 || c == 47) &&
    (let device := path.takeWhile (· != 47)
     let leaf := (path.drop device.length).drop 1
     if device.length = path.length then endsInJson path
     else
       decide (0 < device.length ∧ device.length < i2cNameMax) && !leaf.contains 47 && !device.contains 46 &&
         (sameIgnoringCase leaf profileLeaf ||
           (decide (leaf.length = device.length + 5) && sameIgnoringCase device (leaf.take device.length) &&
             endsInJson leaf)))

/-- `asset_name_valid`. -/
def assetNameValid (filename extension : Name) : Bool :=
  decide (filename.length < registerMapNameMax) &&
    (filename == [] ||
      (decide (extension.length < filename.length) &&
        filename.drop (filename.length - extension.length) == extension &&
        (filename.take (filename.length - extension.length)).all isWord))

/-- `register_map_valid`. -/
def registerMapValid (filename : Name) : Bool :=
  assetNameValid filename jsonExtension && (filename == [] || isRegisterMap filename)

/-! ## Identifiers -/

/-- `id_valid`. -/
def idValid (s : Name) : Bool :=
  match s with
  | [] => false
  | c :: _ =>
    isLower c && decide (s.length < 32) && s.all fun c => isLower c || digit c || c == 95 || c == 45

/-- `generic`, `phy`, `power`, `gpio`, `sensor`, `memory`, `storage`, `bridge`, `serial`. -/
def deviceClasses : List Name :=
  [[103,101,110,101,114,105,99],[112,104,121],[112,111,119,101,114],[103,112,105,111],[115,101,110,115,111,114],
    [109,101,109,111,114,121],[115,116,111,114,97,103,101],[98,114,105,100,103,101],[115,101,114,105,97,108]]

/-- `class_valid`. -/
def classValid (s : Name) : Bool := deviceClasses.contains s

/-- The identifier of a register, if its offset points to a terminated one. -/
def ProfileMetadata.id (p : ProfileMetadata) (reg : ℕ) : Option Name :=
  let rest := p.ids.drop (p.idOffset reg)
  if p.idOffset reg = 0 ∨ !rest.contains 0 then none else some (rest.takeWhile (· != 0))

/-- The loop over the registers: valid identifiers, no two of them equal. -/
def idsValid (p : ProfileMetadata) : (count : ℕ) → Bool
  | 0 => true
  | count + 1 =>
    idsValid p count &&
      match p.id count with
      | none => false
      | some id => idValid id && (List.range count).all fun j => p.id j != some id

/-- `bvstk_device_profile_metadata_validate`. -/
def metadataValidate (p : ProfileMetadata) (count : ℕ) : Status :=
  if i2cMaxRegCount < count ∨ registerMapValid p.registerMap = false ∨ assetNameValid p.view jsExtension = false ∨
      (p.view ≠ [] ∧ p.registerMap = []) then .malformed
  else if p.version = 0 then .ok
  else if p.version ≠ 2 ∨ count = 0 ∨ profileIdsCap < p.ids.length ∨ p.ids.head? ≠ some 0 ∨
      65 ≤ p.vendor.length ∨ 65 ≤ p.model.length ∨ 16 ≤ p.deviceClass.length ∨ 97 ≤ p.label.length ∨
      p.model = [] ∨ classValid p.deviceClass = false then .malformed
  else if idsValid p count = false then .malformed
  else .ok

end Bvstk.Config
