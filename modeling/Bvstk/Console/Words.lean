import Bvstk.Config.ProfileMetadata
import Bvstk.Library.CNumber

/-! # The words of a command

How the consoles compare words and read numbers: `bus_shell_number` and `parse_num` of the
FreeRTOS shells, `parse_number` of the Neutrino runtime.
-/
namespace Bvstk.Console
open Config CNumber

abbrev Word := List UInt8

/-- `ULONG_MAX`, on 32-bit machines. -/
def ulongMax : ℕ := 4294967295

/-- `whitelist`, `blacklist`, `set`, `add`, `del`, `delete`, `clear` and `*`. -/
def wordWhitelist : Word := [119,104,105,116,101,108,105,115,116]
def wordBlacklist : Word := [98,108,97,99,107,108,105,115,116]
def wordSet : Word := [115,101,116]
def wordAdd : Word := [97,100,100]
def wordDel : Word := [100,101,108]
def wordDelete : Word := [100,101,108,101,116,101]
def wordClear : Word := [99,108,101,97,114]
def wordAny : Word := [42]

/-- The list that a word names. -/
def listOf (w : Word) : Option PolicyMode :=
  if sameIgnoringCase w wordWhitelist then some .whitelist
  else if sameIgnoringCase w wordBlacklist then some .blacklist
  else none

/-- `parse_num`: a number and nothing behind it. -/
def parseNum (text : Word) : Option ℕ :=
  if text = [] then none
  else
    let base := if text[0]? = some 48 ∧ (text[1]? = some 120 ∨ text[1]? = some 88) then 16 else 10
    match strtoul ulongMax text base with
    | none => none
    | some n => if n.rest = [] then some n.value else none

/-- `bus_shell_number`. -/
def busShellNumber (text : Word) (limit : ℕ) : Except Status ℕ :=
  if text.head? = some 45 then .error .malformed
  else
    match parseNum text with
    | none => .error .malformed
    | some value => if value ≤ limit then .ok value else .error .range

/-- `parse_number`. -/
def parseNumber (text : Word) (maximum : ℕ) : Option ℕ :=
  if text = [] then none
  else
    match strtoul ulongMax text 0 with
    | none => none
    | some n => if n.tooLarge = true ∨ n.rest ≠ [] ∨ maximum < n.value then none else some n.value

theorem busShellNumber_le {text : Word} {limit value : ℕ} (h : busShellNumber text limit = .ok value) : value ≤ limit := by
  unfold busShellNumber at h
  split_ifs at h
  split at h
  · cases h
  · split_ifs at h with hle
    cases h
    exact hle

theorem busShellNumber_error {text : Word} {limit : ℕ} {status : Status} (h : busShellNumber text limit = .error status) :
    status ≠ .ok := by
  unfold busShellNumber at h
  split_ifs at h
  · cases h
    simp
  · split at h
    · cases h
      simp
    · split_ifs at h
      cases h
      simp

end Bvstk.Console
