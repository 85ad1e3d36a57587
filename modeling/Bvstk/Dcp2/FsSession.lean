import Bvstk.Dcp2.Status
import Bvstk.Fs.Reader
import Mathlib.Logic.Function.Basic

/-! # The DCP2 file session

`bvstk_dcp2_fs.c`: a client's open streams, two at most. An OPEN is retried under its own
number, a READ by asking for the last block again; whatever has been idle for too long is
closed before a request is looked at.
-/
namespace Bvstk.Dcp2
open Wire Fs

def fsVersion : ℕ := 1
def fsBlockMax : ℕ := 3072
def fsHandlesMax : ℕ := 2
def fsIdleMs : ℕ := 30000

def opFsInfo : UInt8 := 0
def opFsStat : UInt8 := 1
def opFsOpen : UInt8 := 2
def opFsRead : UInt8 := 3
def opFsClose : UInt8 := 4

/-- The status codes of this service alone. -/
def statusFsNotFound : ℕ := 0x0100
def statusFsNotReady : ℕ := 0x0101
def statusFsBadHandle : ℕ := 0x0102
def statusFsTypeError : ℕ := 0x0103
def statusFsIoError : ℕ := 0x0104
def statusFsChanged : ℕ := 0x0105

def wireStatus : FsError → ℕ
  | .invalid => statusMalformed
  | .range => statusRange
  | .notFound => statusFsNotFound
  | .notReady => statusFsNotReady
  | .typeError => statusFsTypeError
  | .io => statusFsIoError
  | .changed => statusFsChanged
  | .busy => statusBusy
  | .unsupported => statusUnsupported

/-- `bvstk_dcp2_fs_handle_t` in use. The block is the one delivered last. -/
structure FsStream (H : Type) where
  reader : FsReader H
  handle : UInt32
  openId : UInt32
  lastActivity : UInt32
  lastBlock : UInt32
  requestedBlockSize : ℕ
  blockSize : ℕ
  cached : Bytes
  terminalStatus : ℕ
  hasBlock : Bool
  eof : Bool

/-- `bvstk_dcp2_fs_session_t`; a slot is free if its handle is zero. -/
structure FsSession (H : Type) where
  nextHandle : UInt32
  slots : ℕ → Option (FsStream H)

def fsInit (H : Type) : FsSession H := ⟨1,fun _ => none⟩

/-- What a request leaves: the status, and the body of the response if it is OK. -/
abbrev FsReply := ℕ × Bytes

section
variable {β H : Type} (P : FsBackend β H)

def FsSession.setSlot (s : FsSession H) (i : ℕ) (h : Option (FsStream H)) : FsSession H :=
  { s with slots := Function.update s.slots i h }

/-! ## Closing -/

def closeHandle (s : FsSession H) (w : FsWorld β H) (i : ℕ) : FsSession H × FsWorld β H :=
  match s.slots i with
  | none => (s,w)
  | some h => (s.setSlot i none,(readerClose P h.reader w).2)

/-- The loops over the slots from `i` on that close some of them. -/
def closeWhere (p : FsStream H → Bool) : (left i : ℕ) → FsSession H → FsWorld β H → FsSession H × FsWorld β H
  | 0, _, s, w => (s,w)
  | left + 1, i, s, w =>
    let out := if (s.slots i).any p = true then closeHandle P s w i else (s,w)
    closeWhere p left (i + 1) out.1 out.2

def fsDestroy (s : FsSession H) (w : FsWorld β H) : FsSession H × FsWorld β H :=
  closeWhere P (fun _ => true) fsHandlesMax 0 s w

/-- Idle for too long, on the wrapping clock. -/
def FsStream.idle (h : FsStream H) (now : UInt32) : Bool := decide (fsIdleMs ≤ (now - h.lastActivity).toNat)

def fsExpire (s : FsSession H) (w : FsWorld β H) (now : UInt32) : FsSession H × FsWorld β H :=
  closeWhere P (·.idle now) fsHandlesMax 0 s w

/-! ## Volumes and paths -/

def parsePath (body : Bytes) : Except ℕ Path :=
  if body.length < 2 then .error statusMalformed
  else if body.length ≠ readBE (body.take 2) + 2 then .error statusMalformed
  else
    match validatePath (body.drop 2) with
    | .error e => .error (wireStatus e)
    | .ok path => .ok path

/-- The entries of the volumes from `index` on, behind `offset` bytes. -/
def volumeEntries (capacity : ℕ) : (left index offset : ℕ) → FsWorld β H → Except ℕ Bytes × FsWorld β H
  | 0, _, _, w => (.ok [],w)
  | left + 1, index, offset, w =>
    match w.volume P index with
    | (.error e,w) => (.error (wireStatus e),w)
    | (.ok volume,w) =>
      let length := volume.name.length
      if length = 0 ∨ 16 ≤ length ∨ capacity < offset + 2 + length then (.error statusInternal,w)
      else
        let (rest,w) := volumeEntries capacity left (index + 1) (offset + 2 + length) w
        (rest.map fun bytes => volume.state :: UInt8.ofNat length :: volume.name ++ bytes,w)

def infoResponse (w : FsWorld β H) (capacity : ℕ) : FsReply × FsWorld β H :=
  let (count,w) := w.volumeCount P
  if capacity < 20 ∨ 2^16 ≤ count then ((statusInternal,[]),w)
  else
    match volumeEntries P capacity count 0 20 w with
    | (.error status,w) => ((status,[]),w)
    | (.ok entries,w) =>
      ((statusOk,beBytes 2 fsVersion ++ beBytes 4 0x3F ++ beBytes 2 fsBlockMax ++ beBytes 2 (pathCapacity - 1) ++
        beBytes 2 maxDepth ++ beBytes 2 fsHandlesMax ++ beBytes 4 fsIdleMs ++ beBytes 2 count ++ entries),w)

def statResponse (w : FsWorld β H) (body : Bytes) (capacity : ℕ) : FsReply × FsWorld β H :=
  match parsePath body with
  | .error status => ((status,[]),w)
  | .ok path =>
    if capacity < 10 then ((statusInternal,[]),w)
    else
      match w.stat P path with
      | (.error e,w) => ((wireStatus e,[]),w)
      | (.ok info,w) =>
        ((statusOk,[info.type,info.attributes] ++ beBytes 8 (if info.type = entryDir then 0 else info.size.toNat)),w)

/-! ## OPEN -/

structure OpenRequest where
  openId : UInt32
  kind : UInt8
  flags : UInt8
  requested : ℕ
  path : Path
  deriving DecidableEq, Repr

/-- The checks of `open_response` that look at the request alone. -/
def parseOpen (body : Bytes) (capacity : ℕ) : Except ℕ OpenRequest :=
  if body.length < 10 then .error statusMalformed
  else if capacity < 14 then .error statusInternal
  else
    let openId := UInt32.ofNat (readBE (body.take 4))
    let kind := body.getD 4 0
    let flags := body.getD 5 0
    let requested := readBE ((body.drop 6).take 2)
    if openId = 0 then .error statusMalformed
    else if fsBlockMax < requested then .error statusRange
    else if kind < kindFile ∨ kindTar < kind then .error statusUnsupported
    else if (kind ≠ kindTree ∧ flags ≠ 0) ∨ flags &&& ~~~flagRecursive ≠ 0 then .error statusMalformed
    else
      match parsePath (body.drop 8) with
      | .error status => .error status
      | .ok path => .ok ⟨openId,kind,flags,requested,path⟩

/-- The stream was opened by this very request. -/
def FsStream.openedBy (h : FsStream H) (q : OpenRequest) : Bool :=
  decide (h.reader.kind = q.kind ∧ h.reader.flags = q.flags ∧ h.requestedBlockSize = q.requested ∧
    h.reader.root = q.path)

/-- The loop over the slots from `i` on: the slot of the request, `free` being the first
free one so far; or an error if the request is another one under an old number. -/
def findSlot (s : FsSession H) (q : OpenRequest) : (left i : ℕ) → (free : Option ℕ) → Except ℕ (Option ℕ)
  | 0, _, free => .ok free
  | left + 1, i, free =>
    match s.slots i with
    | some h =>
      if h.openId = q.openId then
        if h.openedBy q = true then .ok (some i) else .error statusMalformed
      else findSlot s q left (i + 1) free
    | none => findSlot s q left (i + 1) (free.or (some i))

def openReply (h : FsStream H) : FsReply :=
  (statusOk,beBytes 4 h.handle.toNat ++ beBytes 2 h.blockSize ++ beBytes 8 h.reader.totalSize.toNat)

/-- A stream as the first OPEN leaves it. -/
def newStream (s : FsSession H) (q : OpenRequest) (reader : FsReader H) (now : UInt32) : FsStream H where
  reader := reader
  handle := s.nextHandle
  openId := q.openId
  lastActivity := now
  lastBlock := 0
  requestedBlockSize := q.requested
  blockSize := if q.requested ≠ 0 then q.requested else fsBlockMax
  cached := []
  terminalStatus := 0
  hasBlock := false
  eof := false

def openResponse (s : FsSession H) (w : FsWorld β H) (body : Bytes) (now : UInt32) (capacity : ℕ) :
    FsReply × FsSession H × FsWorld β H :=
  match parseOpen body capacity with
  | .error status => ((status,[]),s,w)
  | .ok q =>
    match findSlot s q fsHandlesMax 0 none with
    | .error status => ((status,[]),s,w)
    | .ok none => ((statusBusy,[]),s,w)
    | .ok (some i) =>
      if s.nextHandle = 0 then ((statusBusy,[]),s,w)
      else
        match s.slots i with
        | some h =>
          let h := { h with lastActivity := now }
          (openReply h,s.setSlot i (some h),w)
        | none =>
          match readerOpen P w i q.path q.kind q.flags with
          | (.error e,w) => ((wireStatus e,[]),s,w)
          | (.ok reader,w) =>
            let h := newStream s q reader now
            (openReply h,{ s with nextHandle := s.nextHandle + 1 }.setSlot i (some h),w)

/-! ## READ and CLOSE -/

def blockReply (h : FsStream H) (block : UInt32) : FsReply :=
  (statusOk,beBytes 4 h.handle.toNat ++ beBytes 4 block.toNat ++ [if h.eof = true then 1 else 0,0] ++
    beBytes 2 h.cached.length ++ h.cached)

/-- Whether `block` is the one after the last. -/
def FsStream.isNext (h : FsStream H) (block : UInt32) : Bool :=
  if h.hasBlock = true then decide (h.eof = false ∧ h.lastBlock ≠ UInt32.ofNat (2^32 - 1) ∧ block = h.lastBlock + 1)
  else decide (block = 0)

/-- The status a stream keeps after an error: a block that was partly generated cannot be
retried. -/
def terminalOf (e : FsError) : ℕ := if wireStatus e = statusBusy then statusFsIoError else wireStatus e

def readResponse (h : FsStream H) (w : FsWorld β H) (block : UInt32) (capacity : ℕ) :
    FsReply × FsStream H × FsWorld β H :=
  if capacity < h.blockSize + 12 then ((statusInternal,[]),h,w)
  else if h.terminalStatus ≠ 0 then ((h.terminalStatus,[]),h,w)
  else if h.hasBlock = true ∧ block = h.lastBlock then (blockReply h block,h,w)
  else if h.isNext block = false then ((statusRange,[]),h,w)
  else
    match readerRead P h.reader w h.blockSize with
    | (.error e,reader,w) =>
      ((terminalOf e,[]),{ h with reader := reader, terminalStatus := terminalOf e },w)
    | (.ok (data,eof),reader,w) =>
      let h := { h with reader := reader, cached := data, eof := eof, lastBlock := block, hasBlock := true }
      (blockReply h block,h,w)

/-- The slot with this handle, from slot `i` on. -/
def findHandle (s : FsSession H) (handle : UInt32) : (left i : ℕ) → Option (ℕ × FsStream H)
  | 0, _ => none
  | left + 1, i =>
    match s.slots i with
    | some h => if h.handle = handle then some (i,h) else findHandle s handle left (i + 1)
    | none => findHandle s handle left (i + 1)

def handleResponse (s : FsSession H) (w : FsWorld β H) (opcode : UInt8) (body : Bytes) (now : UInt32) (capacity : ℕ) :
    FsReply × FsSession H × FsWorld β H :=
  if body.length ≠ (if opcode = opFsRead then 8 else 4) then ((statusMalformed,[]),s,w)
  else
    let handle := UInt32.ofNat (readBE (body.take 4))
    if handle = 0 then ((statusFsBadHandle,[]),s,w)
    else
      match findHandle s handle fsHandlesMax 0 with
      | none => ((if opcode = opFsClose then statusOk else statusFsBadHandle,[]),s,w)
      | some (i,h) =>
        if opcode = opFsClose then
          let out := closeHandle P s w i
          ((statusOk,[]),out.1,out.2)
        else
          let (reply,h,w) := readResponse P { h with lastActivity := now } w (UInt32.ofNat (readBE (body.drop 4))) capacity
          (reply,s.setSlot i (some h),w)

/-- `bvstk_dcp2_fs_request`. -/
def fsRequest (s : FsSession H) (w : FsWorld β H) (opcode : UInt8) (body : Bytes) (now : UInt32) (capacity : ℕ) :
    FsReply × FsSession H × FsWorld β H :=
  let (s,w) := fsExpire P s w now
  if opcode = opFsInfo then
    if body ≠ [] then ((statusMalformed,[]),s,w)
    else
      let (reply,w) := infoResponse P w capacity
      (reply,s,w)
  else if opcode = opFsStat then
    let (reply,w) := statResponse P w body capacity
    (reply,s,w)
  else if opcode = opFsOpen then openResponse P s w body now capacity
  else if opcode ≠ opFsRead ∧ opcode ≠ opFsClose then ((statusUnsupported,[]),s,w)
  else handleResponse P s w opcode body now capacity

end

/-! ## The session as a machine -/

/-- The session and what it works on. -/
structure FsSystem (β H : Type) where
  session : FsSession H
  world : FsWorld β H

inductive FsOp where
  | request (opcode : UInt8) (body : Bytes) (now : UInt32) (capacity : ℕ)
  | expire (now : UInt32)
  | destroy

def FsSystem.step {β H : Type} (P : FsBackend β H) (s : FsSystem β H) : FsOp → FsSystem β H × FsReply
  | .request opcode body now capacity =>
    let out := fsRequest P s.session s.world opcode body now capacity
    (⟨out.2.1,out.2.2⟩,out.1)
  | .expire now =>
    let out := fsExpire P s.session s.world now
    (⟨out.1,out.2⟩,(statusOk,[]))
  | .destroy =>
    let out := fsDestroy P s.session s.world
    (⟨out.1,out.2⟩,(statusOk,[]))

/-- A session as the server starts it for a client. -/
def fsStart {β : Type} (H : Type) (env : β) : FsSystem β H := ⟨fsInit H,⟨env,[]⟩⟩

end Bvstk.Dcp2
