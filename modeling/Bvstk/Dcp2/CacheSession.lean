import Bvstk.Cache.Registry
import Bvstk.Dcp2.Status
import Bvstk.Library.Wire

/-! # The DCP2 cache session

`bvstk_dcp2_cache.c`: one client's subscriptions and its one frozen snapshot,
which is paged out on request. Requests and event polls read the registry and
never write it. Every operation yields the bytes it puts on the wire.
-/
namespace Bvstk.Dcp2
open Wire Cache

def cacheVersion : UInt8 := 1
def cacheSubscriptions : ℕ := 8
def cacheSnapshotMs : ℕ := 30000
def cachePageHeader : ℕ := 37
def cacheEventHeader : ℕ := 28

def opCacheGet : ℕ := 0x20
def opCacheSubscribe : ℕ := 0x21
def opCacheUnsubscribe : ℕ := 0x22

/-- The status codes of this service alone. -/
def statusCacheNotFound : ℕ := 0x0200
def statusStaleSnapshot : ℕ := 0x0201

/-- The second byte of a page and of a resynchronisation event. -/
def recordSnapshot : UInt8 := 0
def recordResync : UInt8 := 3

/-- `paused` once the RESYNC has been sent. -/
def pausedSent : ℕ := 0xFF

structure CacheSubscription where
  cursor : ℕ
  revision : ℕ
  generation : ℕ
  id : ℕ
  handle : ℕ
  pending : Bool
  paused : ℕ
  deriving DecidableEq, Repr

def CacheSubscription.zero : CacheSubscription := ⟨0,0,0,0,0,false,0⟩

structure CacheSession where
  snapshot : CacheSnapshot
  subscriptions : ℕ → CacheSubscription
  snapshotActivity : UInt64
  snapshotId : ℕ
  nextSnapshot : ℕ
  snapshotSub : ℕ
  snapshotProgress : ℕ
  nextSub : ℕ
  roundRobin : ℕ

def cacheSessionInit : CacheSession :=
  ⟨CacheSnapshot.zero,fun _ => CacheSubscription.zero,0,0,0,0,0,0,0⟩

def CacheSession.setSub (s : CacheSession) (i : ℕ) (sub : CacheSubscription) : CacheSession :=
  { s with subscriptions := Function.update s.subscriptions i sub }

/-- The slot of the subscription with this id. -/
def subscription (s : CacheSession) (id : ℕ) : Option ℕ :=
  if id = 0 then none
  else (List.range cacheSubscriptions).find? fun i => (s.subscriptions i).id == id

/-- Whether the live snapshot has been idle for too long, on the wrapping `uint64_t` clock. -/
def CacheSession.overdue (s : CacheSession) (now : UInt64) : Bool :=
  decide (s.snapshotId ≠ 0 ∧ cacheSnapshotMs ≤ (now - s.snapshotActivity).toNat)

/-- Marks the pending owner of the snapshot, if there is one. -/
def CacheSession.pauseOwner (s : CacheSession) : CacheSession :=
  match subscription s s.snapshotSub with
  | none => s
  | some i =>
    if (s.subscriptions i).pending then s.setSub i { s.subscriptions i with paused := reasonExpired }
    else s

def expire (s : CacheSession) (now : UInt64) : CacheSession :=
  if s.overdue now then { s.pauseOwner with snapshotId := 0 } else s

/-! ## Wire records -/

def entryBytes (e : CacheEntry) : Bytes :=
  UInt8.ofNat e.id.length :: e.id ++
    ([e.widthBits,e.valid,e.source] ++ beBytes 8 e.value.toNat ++ beBytes 8 e.updatedMs.toNat)

/-- A length-prefixed name and the rest of the body. -/
def readName : Bytes → Option (Name × Bytes)
  | [] => none
  | len :: rest =>
    let name := rest.take len.toNat
    if len = 0 ∨ cacheNameMax ≤ len.toNat ∨ rest.length < len.toNat ∨ name.all nameChar = false then none
    else some (name,rest.drop len.toNat)

/-- The entries that fit, in order, into the room left in the page. -/
def fitting : ℕ → List CacheEntry → List CacheEntry
  | _, [] => []
  | room, e :: rest =>
    if room < e.id.length + 20 then [] else e :: fitting (room - (e.id.length + 20)) rest

/-- Where a client that has all entries before `reached` goes on. -/
def pageNext (v : CacheSnapshot) (reached : ℕ) : ℕ := if reached = v.count then 0xFFFF else reached

def pageBytes (s : CacheSession) (first : ℕ) (taken : List CacheEntry) : Bytes :=
  let v := s.snapshot
  [cacheVersion,recordSnapshot] ++ beBytes 2 s.snapshotSub ++ beBytes 4 s.snapshotId ++
    beBytes 4 v.generation ++ beBytes 8 v.revision ++ beBytes 8 v.capturedMs.toNat ++
    beBytes 2 v.count ++ beBytes 2 first ++ beBytes 2 taken.length ++
    beBytes 2 (pageNext v (first + taken.length)) ++ [v.presence] ++ taken.flatMap entryBytes

def resyncBytes (sub : CacheSubscription) (reason : ℕ) (now : UInt64) : Bytes :=
  [cacheVersion,recordResync] ++ beBytes 2 sub.id ++ beBytes 4 sub.generation ++
    beBytes 8 sub.revision ++ beBytes 8 now.toNat ++ [0,UInt8.ofNat reason,0,0]

def changeBytes (sub : CacheSubscription) (c : CacheChange) : Bytes :=
  [cacheVersion,c.kind] ++ beBytes 2 sub.id ++ beBytes 4 sub.generation ++
    beBytes 8 c.revision ++ beBytes 8 c.timeMs.toNat ++ [c.presence,0] ++
    (if c.kind = kindChange then beBytes 2 1 ++ entryBytes c.entry else [0,0])

/-! ## Requests -/

/-- Advances the contiguous prefix, and releases the owner once it covers the snapshot. -/
def CacheSession.advance (s : CacheSession) (first count : ℕ) : CacheSession :=
  let progress := if first = s.snapshotProgress then first + count else s.snapshotProgress
  let s' := { s with snapshotProgress := progress }
  match subscription s s.snapshotSub with
  | none => s'
  | some i =>
    if progress = s.snapshot.count then s'.setSub i { s.subscriptions i with pending := false } else s'

def page (s : CacheSession) (first capacity : ℕ) : ℕ × CacheSession × Bytes :=
  if s.snapshot.count < first then (statusRange,s,[])
  else if capacity < cachePageHeader then (statusRange,s,[])
  else
    let taken := fitting (capacity - cachePageHeader) (s.snapshot.entries.drop first)
    if taken.length = 0 ∧ first < s.snapshot.count then (statusRange,s,[])
    else (statusOk,s.advance first taken.length,pageBytes s first taken)

def cacheUnsubscribe (s : CacheSession) (body : Bytes) : ℕ × CacheSession × Bytes :=
  if body.length ≠ 2 then (statusMalformed,s,[])
  else
    match subscription s (readBE body) with
    | none => (statusCacheNotFound,s,[])
    | some i =>
      let s' := if s.snapshotSub = (s.subscriptions i).id then
        { s with snapshotSub := 0, snapshotId := 0 } else s
      (statusOk,s'.setSub i CacheSubscription.zero,[])

/-- A GET with a token: a page of the frozen snapshot. -/
def pageByToken (s : CacheSession) (bus device : Name) (token first : ℕ) (now : UInt64) (capacity : ℕ) :
    ℕ × CacheSession × Bytes :=
  if token ≠ s.snapshotId ∨ bus ≠ s.snapshot.subsystem ∨ device ≠ s.snapshot.device then
    (statusStaleSnapshot,s,[])
  else
    let out := page s first capacity
    if out.1 = statusOk then (out.1,{ out.2.1 with snapshotActivity := now },out.2.2) else out

/-- The slot a SUBSCRIBE uses: the one of the same device, or the first free one. -/
def subscribeSlot (s : CacheSession) (handle : ℕ) : Option ℕ :=
  ((List.range cacheSubscriptions).find? fun i =>
    decide ((s.subscriptions i).id ≠ 0 ∧ (s.subscriptions i).handle = handle)).or
  ((List.range cacheSubscriptions).find? fun i => (s.subscriptions i).id == 0)

/-- Makes the captured snapshot the live one and answers with its first page. -/
def openSnapshot (s : CacheSession) (now : UInt64) (capacity : ℕ) : ℕ × CacheSession × Bytes :=
  let id := nextNonzero s.nextSnapshot
  page { s with nextSnapshot := id, snapshotId := id, snapshotActivity := now } 0 capacity

/-- The live snapshot belongs to a subscription that still needs its pages. -/
def CacheSession.busy (s : CacheSession) : Bool :=
  decide (s.snapshotId ≠ 0) &&
    (subscription s s.snapshotSub).any fun i => (s.subscriptions i).pending

/-- A GET without a token, or a SUBSCRIBE. -/
def capture (r : CacheRegistry) (s : CacheSession) (subscribe : Bool) (bus name : Name) (now : UInt64)
    (capacity : ℕ) : ℕ × CacheSession × Bytes :=
  if s.busy then (statusBusy,s,[])
  -- Guarantee at least one maximal entry before creating subscription state.
  else if capacity < cachePageHeader + cacheNameMax - 1 + 20 then (statusRange,s,[])
  else
    match cacheSnapshot r bus name now with
    | none => (statusCacheNotFound,s,[])
    | some (v,handle,cursor) =>
      -- Any new capture replaces the old token, including failed subscriptions.
      let s := { s with snapshot := v, snapshotId := 0, snapshotSub := 0, snapshotProgress := 0 }
      if subscribe then
        match subscribeSlot s handle with
        | none => (statusBusy,s,[])
        | some i =>
          if (s.subscriptions i).id = 0 ∧ s.nextSub = 2^16 - 1 then (statusBusy,s,[])
          else
            let fresh := (s.subscriptions i).id = 0
            let id := if fresh then s.nextSub + 1 else (s.subscriptions i).id
            let sub := CacheSubscription.mk cursor v.revision v.generation id handle true 0
            let s := { s with nextSub := if fresh then s.nextSub + 1 else s.nextSub, snapshotSub := id }
            openSnapshot (s.setSub i sub) now capacity
      else openSnapshot s now capacity

/-- The wire status, the session and the response body of `bvstk_dcp2_cache_request`. -/
def cacheRequest (r : CacheRegistry) (s : CacheSession) (opcode : ℕ) (body : Bytes) (now : UInt64)
    (capacity : ℕ) : ℕ × CacheSession × Bytes :=
  let s := expire s now
  if opcode ≠ opCacheGet ∧ opcode ≠ opCacheSubscribe ∧ opcode ≠ opCacheUnsubscribe then
    (statusUnsupported,s,[])
  else
    match body with
    | [] => (statusMalformed,s,[])
    | version :: body =>
      if version ≠ cacheVersion then (statusUnsupported,s,[])
      else if opcode = opCacheUnsubscribe then cacheUnsubscribe s body
      else
        match readName body with
        | none => (statusMalformed,s,[])
        | some (bus,body) =>
          match readName body with
          | none => (statusMalformed,s,[])
          | some (name,body) =>
            if opcode = opCacheGet then
              let token := readBE (body.take 4)
              let first := readBE (body.drop 4)
              if body.length ≠ 6 then (statusMalformed,s,[])
              else if token = 0 ∧ first ≠ 0 then (statusMalformed,s,[])
              else if token ≠ 0 then pageByToken s bus name token first now capacity
              else capture r s false bus name now capacity
            else if body.length ≠ 0 then (statusMalformed,s,[])
            else capture r s true bus name now capacity

/-! ## Event polls -/

/-- Ends the delivery of a subscription. -/
def resyncSub (s : CacheSession) (i : ℕ) (sub : CacheSubscription) (reason : ℕ) (now : UInt64) :
    CacheSession × Bytes :=
  (s.setSub i { sub with pending := false, paused := pausedSent },resyncBytes sub reason now)

/-- One turn of the poll loop: what slot `i` has to say, nothing if it is to be passed over. -/
def visit (r : CacheRegistry) (s : CacheSession) (i : ℕ) (now : UInt64) : CacheSession × Bytes :=
  let sub := s.subscriptions i
  if sub.id = 0 ∨ sub.paused = pausedSent then (s,[])
  else if sub.paused ≠ 0 then resyncSub s i sub sub.paused now
  else if sub.pending then (s,[])
  else
    match cacheNext r sub.handle sub.generation sub.cursor with
    | (.caughtUp,cursor) => (s.setSub i { sub with cursor := cursor },[])
    | (.resync reason,cursor) => resyncSub s i { sub with cursor := cursor } reason now
    | (.change c,cursor) =>
      let sub := { sub with cursor := cursor }
      if c.revision ≠ (sub.revision + 1) % 2^64 then resyncSub s i sub reasonLost now
      else (s.setSub i { sub with revision := c.revision },changeBytes sub c)

def eventLoop (r : CacheRegistry) (now : UInt64) : ℕ → CacheSession → CacheSession × Bytes
  | 0, s => (s,[])
  | left + 1, s =>
    let out := visit r { s with roundRobin := (s.roundRobin + 1) % 2^16 }
      (s.roundRobin % cacheSubscriptions) now
    if out.2 = [] then eventLoop r now left out.1 else out

/-- The session and the event of `bvstk_dcp2_cache_event`; no bytes when it returns 0. -/
def cacheEvent (r : CacheRegistry) (s : CacheSession) (now : UInt64) (capacity : ℕ) :
    CacheSession × Bytes :=
  let s := expire s now
  if capacity < cacheEventHeader + cacheNameMax - 1 + 20 then (s,[])
  else eventLoop r now cacheSubscriptions s

end Bvstk.Dcp2
