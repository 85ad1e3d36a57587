import Bvstk.Events.Event
import Mathlib.Data.Int.Init
import Mathlib.Logic.Function.Basic
import Mathlib.Order.Basic
import Mathlib.Algebra.Group.Nat.Defs

/-! # The event journal

`bvstk_journal.c`: one overwriting ring for each bus and channel, and a read that
resumes from the last scanned sequence number.
-/
namespace Bvstk.Events

def journalCapacity : ℕ := 256
def journalBatch : ℕ := 32
def journalBuses : ℕ := 2
/-- `UINT64_MAX`, passed as `after` to ask for the retained history. -/
def journalHistory : ℕ := 2^64 - 1

/-- `BVSTK_JOURNAL_EVENTS` and `BVSTK_JOURNAL_TELEMETRY`. -/
def channelEvents : ℕ := 0
def channelTelemetry : ℕ := 1

structure JournalRing where
  head : ℕ
  entries : ℕ → Event

structure Journal where
  rings : ℕ → ℕ → JournalRing

/-- Zero-initialised RAM. -/
def Journal.zero : Journal := ⟨fun _ _ => ⟨0,fun _ => Event.zero⟩⟩

structure JournalRecord where
  sequence : ℕ
  event : Event
  deriving DecidableEq, Repr

/-- `bvstk_journal_batch_t`; the count is the length of `records`. -/
structure JournalBatch where
  next : ℕ
  head : ℕ
  lost : ℕ
  reset : Bool
  records : List JournalRecord
  deriving DecidableEq, Repr

def eventIsTelemetry (type : ℕ) : Bool :=
  decide (EventType.captureWrite.code ≤ type ∧ type ≤ EventType.slaveReplyPrepared.code)

/-- The ring an event goes to, if any: unknown buses and types are dropped. -/
def route (e : Event) : Option (ℕ × ℕ) :=
  if journalBuses ≤ e.bus then none
  else if eventIsTelemetry e.type = false ∧
      (e.type < EventType.regAttempt.code ∨ EventType.fault.code < e.type) then none
  else some (e.bus, if eventIsTelemetry e.type then channelTelemetry else channelEvents)

/-- `ring->entries[ring->head % CAPACITY] = *event; ++ring->head`, on a `uint64_t` head. -/
def JournalRing.push (r : JournalRing) (e : Event) : JournalRing where
  head := (r.head + 1) % 2^64
  entries := Function.update r.entries (r.head % journalCapacity) e

def journalPublish (j : Journal) (e : Event) : Journal :=
  match route e with
  | none => j
  | some (bus,channel) =>
    ⟨Function.update j.rings bus
      (Function.update (j.rings bus) channel ((j.rings bus channel).push e))⟩

/-- `address >= 0 && e->arg0 != (uint32_t)address`. -/
def filteredOut (address : ℤ) (e : Event) : Bool := decide (0 ≤ address ∧ e.arg0 ≠ address.toNat)

/-- The scan loop; `left` is `head - after`, so the first test is `after < head`. -/
def scan (entries : ℕ → Event) (address : ℤ) : (left after count : ℕ) → ℕ × List JournalRecord
  | 0, after, _ => (after,[])
  | left + 1, after, count =>
    if count < journalBatch then
      let e := entries (after % journalCapacity)
      if filteredOut address e then scan entries address left (after + 1) count
      else
        let rest := scan entries address left (after + 1) (count + 1)
        (rest.1, ⟨after + 1,e⟩ :: rest.2)
    else (after,[])

/-- The oldest retained cursor. -/
def JournalRing.first (r : JournalRing) : ℕ :=
  if journalCapacity < r.head then r.head - journalCapacity else 0

/-- The cursor a read starts from, and the reset flag, before the overrun test. -/
def JournalRing.resume (r : JournalRing) (after : ℕ) : ℕ × Bool :=
  if after = journalHistory then (r.first,false)
  else if r.head < after then (r.first,true)
  else (after,false)

def JournalRing.read (r : JournalRing) (address : ℤ) (after : ℕ) : JournalBatch :=
  let after := r.resume after
  let lost := if after.1 < r.first then r.first - after.1 else 0
  let origin := if after.1 < r.first then r.first else after.1
  let scanned := scan r.entries address (r.head - origin) origin 0
  ⟨scanned.1,r.head,lost,after.2,scanned.2⟩

def journalRead (j : Journal) (bus channel : ℕ) (address : ℤ) (after : ℕ) : JournalBatch :=
  if journalBuses ≤ bus ∨ 2 ≤ channel then ⟨0,0,0,false,[]⟩
  else (j.rings bus channel).read address after

end Bvstk.Events
