import Bvstk.Base.Status
import Mathlib.Logic.Function.Basic
import Mathlib.Algebra.Group.Nat.Defs

/-! # The cache registry

`bvstk_cache.c`: up to 48 devices with their cached resources, and a journal of
the last 512 changes. The guard callbacks make each operation atomic, so an
operation is one function here.
-/
namespace Bvstk.Cache

def cacheDevicesMax : ℕ := 48
def cacheResourcesMax : ℕ := 256
def cacheNameMax : ℕ := 32
def cacheJournalSize : ℕ := 512

/-- `BVSTK_CACHE_SOURCE_*`; the fields below carry the number. -/
def sourceUnknown : ℕ := 0
def sourceSettings : ℕ := 1
def sourceDevice : ℕ := 2

/-- `BVSTK_CACHE_PRESENCE_*`. -/
def presenceUnknown : ℕ := 0
def presenceReady : ℕ := 1
def presenceUnavailable : ℕ := 2

/-- Kinds of a journal record. -/
def kindChange : UInt8 := 1
def kindPresence : UInt8 := 2

/-- Reasons for a resynchronisation. -/
def reasonLost : ℕ := 1
def reasonReconfigured : ℕ := 2
def reasonExpired : ℕ := 3

/-- A NUL-terminated name is the list of its bytes; an array without a terminator
shows as a list that is too long. -/
abbrev Name := List UInt8

def nameChar (c : UInt8) : Bool :=
  decide ((97 ≤ c ∧ c ≤ 122) ∨ (65 ≤ c ∧ c ≤ 90) ∨ (48 ≤ c ∧ c ≤ 57) ∨ c = 95 ∨ c = 45 ∨ c = 46)

def nameValid (s : Name) : Bool :=
  decide (s ≠ [] ∧ s.length < cacheNameMax) && s.all nameChar

/-- `bvstk_cache_entry_t`. -/
structure CacheEntry where
  id : Name
  value : UInt64
  updatedMs : UInt64
  widthBits : UInt8
  valid : UInt8
  source : UInt8
  deriving DecidableEq, Repr

def CacheEntry.zero : CacheEntry := ⟨[],0,0,0,0,0⟩

/-- `bvstk_cache_snapshot_t`. Only the first `count` slots of its array are ever
used, so `count` is the length of `entries`. -/
structure CacheSnapshot where
  subsystem : Name
  device : Name
  generation : ℕ
  revision : ℕ
  capturedMs : UInt64
  presence : UInt8
  entries : List CacheEntry
  deriving DecidableEq, Repr

def CacheSnapshot.zero : CacheSnapshot := ⟨[],[],0,0,0,0,[]⟩

def CacheSnapshot.count (d : CacheSnapshot) : ℕ := d.entries.length

/-- `bvstk_cache_change_t`. -/
structure CacheChange where
  serial : ℕ
  revision : ℕ
  timeMs : UInt64
  generation : ℕ
  handle : ℕ
  kind : UInt8
  presence : UInt8
  entry : CacheEntry
  deriving DecidableEq, Repr

def CacheChange.zero : CacheChange := ⟨0,0,0,0,0,0,0,CacheEntry.zero⟩

structure CacheRegistry where
  generation : ℕ
  head : ℕ
  devices : ℕ → CacheSnapshot
  journal : ℕ → CacheChange

def cacheInit : CacheRegistry := ⟨0,0,fun _ => CacheSnapshot.zero,fun _ => CacheChange.zero⟩

def normalize (e : CacheEntry) : CacheEntry :=
  if e.valid = 0 then { e with value := 0, source := UInt8.ofNat sourceUnknown, updatedMs := 0 }
  else { e with valid := 1 }

/-- The live device behind a handle. -/
def device (r : CacheRegistry) (handle : ℕ) : Option CacheSnapshot :=
  if handle ≠ 0 ∧ handle ≤ cacheDevicesMax ∧ (r.devices (handle - 1)).generation ≠ 0 then
    some (r.devices (handle - 1)) else none

/-- Journals the state of `d`, the device behind `handle`, as its next revision. -/
def append (r : CacheRegistry) (handle : ℕ) (d : CacheSnapshot) (kind : UInt8)
    (entry : Option CacheEntry) (time : UInt64) : CacheRegistry :=
  let head := (r.head + 1) % 2^64
  let revision := (d.revision + 1) % 2^64
  { r with
    head := head
    devices := Function.update r.devices (handle - 1) { d with revision := revision }
    journal := Function.update r.journal (r.head % cacheJournalSize)
      ⟨head,revision,time,d.generation,handle,kind,d.presence,entry.getD CacheEntry.zero⟩ }

/-- `valid != 0` as a `uint8_t`. -/
def flag (b : Bool) : UInt8 := if b then 1 else 0

/-- `value >> width` leaves something, for widths the shift is defined for. -/
def tooWide (value : UInt64) (widthBits : UInt8) : Bool :=
  decide (widthBits.toNat < 64 ∧ value.toNat >>> widthBits.toNat ≠ 0)

/-- The checks `define` makes of a described entry. -/
def entryAccepted (a : CacheEntry) : Bool :=
  nameValid a.id && decide (a.widthBits ≠ 0 ∧ a.widthBits.toNat ≤ 64 ∧ a.source.toNat ≤ sourceDevice) &&
    !(decide (a.valid ≠ 0) && tooWide a.value a.widthBits)

/-- The staging loop: describes the entries from `i` on, refusing a bad or a repeated one. -/
def stage (describe : ℕ → CacheEntry) : (left i : ℕ) → List CacheEntry → Option (List CacheEntry)
  | 0, _, staged => some staged
  | left + 1, i, staged =>
    let a := describe i
    if entryAccepted a = false then none
    else if staged.any (fun b => b.id == a.id) then none
    else stage describe left (i + 1) (staged ++ [normalize a])

/-- Another live device already has this name. -/
def nameTaken (r : CacheRegistry) (handle : ℕ) (subsystem name : Name) : Bool :=
  (List.range cacheDevicesMax).any fun i =>
    decide ((r.devices i).generation ≠ 0 ∧ i + 1 ≠ handle ∧
      (r.devices i).subsystem = subsystem ∧ (r.devices i).device = name)

/-- The slot to define: the given handle's, or the first free one. -/
def defineSlot (r : CacheRegistry) (handle : ℕ) : Option ℕ :=
  if handle ≠ 0 then some (handle - 1)
  else (List.range cacheDevicesMax).find? fun i => (r.devices i).generation == 0

/-- `if (++n == 0) ++n` on a `uint32_t`. -/
def nextNonzero (n : ℕ) : ℕ :=
  if (n + 1) % 2^32 = 0 then 1 else (n + 1) % 2^32

/-- The status, the registry and the handle after `bvstk_cache_define`. -/
def cacheDefine (r : CacheRegistry) (handle : ℕ) (subsystem name : Name) (count presence : ℕ)
    (describe : ℕ → CacheEntry) : Status × CacheRegistry × ℕ :=
  if nameValid subsystem = false ∨ nameValid name = false ∨ cacheResourcesMax < count ∨
      presenceUnavailable < presence then (.malformed,r,handle)
  else if handle ≠ 0 ∧ device r handle = none then (.notFound,r,handle)
  else if nameTaken r handle subsystem name then (.denied,r,handle)
  else
    match defineSlot r handle with
    | none => (.busy,r,handle)
    | some slot =>
      match stage describe count 0 [] with
      | none => (.malformed,r,handle)
      | some entries =>
        let generation := nextNonzero r.generation
        (.ok,
          { r with
            generation := generation
            devices := Function.update r.devices slot
              ⟨subsystem,name,generation,0,0,UInt8.ofNat presence,entries⟩ },
          slot + 1)

def cachePut (r : CacheRegistry) (handle index : ℕ) (value : UInt64) (valid : Bool) (source : ℕ)
    (updatedMs nowMs : UInt64) : Status × CacheRegistry :=
  match device r handle with
  | none => (.notFound,r)
  | some d =>
    match d.entries[index]? with
    | none => (.range,r)
    | some e =>
      if sourceDevice < source ∨ (valid = true ∧ tooWide value e.widthBits = true) then (.range,r)
      -- Repeated invalidation has no new information. Repeated valid reads do.
      else if valid = false ∧ e.valid = 0 then (.ok,r)
      else
        let e' := normalize { e with
          value := value
          valid := flag valid
          source := UInt8.ofNat source
          updatedMs := updatedMs }
        (.ok,append r handle { d with entries := d.entries.set index e' } kindChange (some e') nowMs)

def cachePresence (r : CacheRegistry) (handle presence : ℕ) (nowMs : UInt64) : Status × CacheRegistry :=
  match device r handle with
  | none => (.notFound,r)
  | some d =>
    if presenceUnavailable < presence then (.range,r)
    else if d.presence.toNat ≠ presence then
      (.ok,append r handle { d with presence := UInt8.ofNat presence } kindPresence none nowMs)
    else (.ok,r)

/-- The frozen device with its capture time, its handle and the journal cursor. -/
def cacheSnapshot (r : CacheRegistry) (subsystem name : Name) (nowMs : UInt64) :
    Option (CacheSnapshot × ℕ × ℕ) :=
  ((List.range cacheDevicesMax).find? fun i =>
      decide ((r.devices i).generation ≠ 0 ∧ subsystem = (r.devices i).subsystem ∧
        name = (r.devices i).device)).map
    fun i => ({ r.devices i with capturedMs := nowMs },i + 1,r.head)

/-- What `bvstk_cache_next` returns: 0, 1 with a change, or `-reason`. -/
inductive CacheNext where
  | caughtUp
  | change (c : CacheChange)
  | resync (reason : ℕ)
  deriving DecidableEq, Repr

/-- The search loop; `left` is `head - cursor`. -/
def nextLoop (journal : ℕ → CacheChange) (handle : ℕ) : (left cursor : ℕ) → CacheNext × ℕ
  | 0, cursor => (.caughtUp,cursor)
  | left + 1, cursor =>
    let c := journal (cursor % cacheJournalSize)
    if c.handle = handle then (.change c,cursor + 1) else nextLoop journal handle left (cursor + 1)

/-- The result and the advanced cursor. -/
def cacheNext (r : CacheRegistry) (handle generation cursor : ℕ) : CacheNext × ℕ :=
  match device r handle with
  | none => (.resync reasonReconfigured,cursor)
  | some d =>
    if d.generation ≠ generation then (.resync reasonReconfigured,cursor)
    else if r.head < cursor ∨ cacheJournalSize < r.head - cursor then (.resync reasonLost,cursor)
    else nextLoop r.journal handle (r.head - cursor) cursor

end Bvstk.Cache
