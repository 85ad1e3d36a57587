import Bvstk.Dcp2.Codec
import Bvstk.Dcp2.Status
import Bvstk.Events.Journal
import Bvstk.Library.Surroundings

/-! # A connection of the FreeRTOS server

`dcp2_server.c` from the accepted socket on. Between two requests the connection tells its client
what it has subscribed to. Sockets, clocks, the journal and the services are its surroundings.
-/
namespace Bvstk.Dcp2.Server
open Dialogue Wire Events

/-! ## What a connection asks for -/

/-- Services whose requests are carried out elsewhere. -/
inductive Backend where
  | mem | i2c | mdio | fs | cache
  deriving DecidableEq, Repr

/-- So many bytes. -/
abbrev Block (n : ℕ) := { bytes : Bytes // bytes.length = n }

/-- Bytes that there is room for. -/
abbrev Fitting (n : ℕ) := { bytes : Bytes // bytes.length ≤ n }

/-- Room for the data of a stream event: `DCP2_STREAM_SIM_MAX_WORDS` words. -/
def streamDataMax : ℕ := 256

/-- `dcp2_stream_sim_event_t`; the length of the data is `data_len`. -/
structure SimEvent where
  service : UInt8
  timeUs : ℕ
  evFlags : UInt8
  lostDelta : ℕ
  data : Fitting streamDataMax
  deriving DecidableEq, Repr

/-- What `dcp2_wait_readable` returns. -/
inductive Readiness where
  | failed | timeout | ready
  deriving DecidableEq, Repr

inductive Call where
  | nowMs
  | expireFiles
  | observerRead (bus channel after : ℕ)
  | observerHead (bus channel : ℕ)
  | simNext (service : UInt8)
  | simResetLost (service : UInt8)
  | cacheEvent
  | waitReadable
  | readHeader
  | readPayload (length : ℕ)
  | write (frame : Bytes)
  | serve (backend : Backend) (opcode : UInt8) (body : Bytes)
  deriving DecidableEq, Repr

/-- A read that fails tells nothing, a write whether it succeeded. A service answers with its
status and a body that the response has room for. -/
def Answer : Call → Type
  | .nowMs => UInt32
  | .expireFiles => Unit
  | .observerRead _ _ _ => JournalBatch
  | .observerHead _ _ => ℕ
  | .simNext _ => Option SimEvent
  | .simResetLost _ => Unit
  | .cacheEvent => Fitting (maxPayloadSize - 4)
  | .waitReadable => Readiness
  | .readHeader => Option (Block headerSize)
  | .readPayload length => Option (Block length)
  | .write _ => Bool
  | .serve _ _ _ => ℕ × Fitting (maxPayloadSize - 6)

/-- A part of the connection; where the source returns `-1` it fails. -/
abbrev Conn (α : Type) := Attempt Answer α

def nowMs : Conn UInt32 := .ask Call.nowMs
def expireFiles : Conn Unit := .ask Call.expireFiles
def observerRead (bus channel after : ℕ) : Conn JournalBatch := .ask (Call.observerRead bus channel after)
def observerHead (bus channel : ℕ) : Conn ℕ := .ask (Call.observerHead bus channel)
def simNext (service : UInt8) : Conn (Option SimEvent) := .ask (Call.simNext service)
def simResetLost (service : UInt8) : Conn Unit := .ask (Call.simResetLost service)
def cacheEvent : Conn (Fitting (maxPayloadSize - 4)) := .ask Call.cacheEvent
def waitReadable : Conn Readiness := .ask Call.waitReadable
def readHeader : Conn (Option (Block headerSize)) := .ask Call.readHeader
def readPayload (length : ℕ) : Conn (Option (Block length)) := .ask (Call.readPayload length)
def write (frame : Bytes) : Conn Bool := .ask (Call.write frame)
def serve (backend : Backend) (opcode : UInt8) (body : Bytes) : Conn (ℕ × Fitting (maxPayloadSize - 6)) :=
  .ask (Call.serve backend opcode body)

/-! ## Frames -/

def servicePing : UInt8 := 0x00
def serviceMem : UInt8 := 0x01
def serviceI2c : UInt8 := 0x02
def serviceMdio : UInt8 := 0x03
def serviceSpi : UInt8 := 0x04
def serviceUart : UInt8 := 0x05
def serviceNotify : UInt8 := 0x06
def serviceFs : UInt8 := 0x07
def serviceCache : UInt8 := 0x08

def opPing : UInt8 := 0x00
def opSubscribe : UInt8 := 0x10
def opUnsubscribe : UInt8 := 0x11
def opCacheSubscribe : UInt8 := 0x21

/-- The start of a frame. -/
def frameHeader (payloadLen : UInt16) : Bytes := magic ++ beBytes 2 version ++ beBytes 2 payloadLen.toNat

def responsePayload (srv opcode : UInt8) (seq : UInt16) (status : ℕ) (body : Bytes) : Bytes :=
  [srv,opResponse ||| (opcode &&& opMask)] ++ beBytes 2 seq.toNat ++ beBytes 2 status ++ body

def eventPayload (srv opcode : UInt8) (body : Bytes) : Bytes := [srv,opEvent ||| (opcode &&& opMask)] ++ beBytes 2 0 ++ body

/-- The frame of a payload whose length has 16 bits. -/
def frameOf (payload : Bytes) : Bytes :=
  let payloadLen := UInt16.ofNat payload.length
  frameHeader payloadLen ++ payload.take payloadLen.toNat

def sendPayload (payload : Bytes) : Conn Unit := do
  if maxPayloadSize < (UInt16.ofNat payload.length).toNat then failure
  else if ← write (frameOf payload) then return else failure

/-- `dcp2_send_response`. -/
def sendResponse (srv opcode : UInt8) (seq : UInt16) (status : ℕ) (body : Bytes) : Conn Unit :=
  sendPayload (responsePayload srv opcode seq status body)

/-- `dcp2_send_event`. -/
def sendEvent (srv opcode : UInt8) (body : Bytes) : Conn Unit := sendPayload (eventPayload srv opcode body)

/-! ## The state of a connection -/

/-- `dcp2_notify_filter_t`. -/
structure NotifyFilter where
  classMask : UInt32
  sourceMask : UInt32
  busMask : UInt32
  flags : UInt8
  deriving DecidableEq, Repr

/-- `dcp2_conn_state_t`. -/
structure ConnState where
  streamEnabled : ℕ → Bool
  streamFlags : ℕ → UInt8
  notifyEnabled : Bool
  notifyFilter : NotifyFilter
  notifyCursor : ℕ → ℕ
  streamCursor : ℕ → ℕ

/-- Zeroed memory. -/
def ConnState.zero : ConnState := ⟨fun _ => false,fun _ => 0,false,⟨0,0,0,0⟩,fun _ => 0,fun _ => 0⟩

/-! ## Notifications -/

/-- `DCP2_NOTIFY_FLAG_WITH_TIMESTAMP` and `DCP2_SUB_WITH_TIMESTAMP`. -/
def notifyTimestamp : UInt8 := 0x01
def subTimestamp : UInt8 := 0x02
def subResetLost : UInt8 := 0x04

/-- `DCP2_NOTIFY_EV_LOST`. -/
def lostType : ℕ := 0x0006

/-- `dcp2_notify_event_class_mask`. -/
def notifyEventClassMask (type : ℕ) : UInt32 :=
  if type = EventType.regAttempt.code then 0x01
  else if type = EventType.regCommit.code then 0x02
  else if type = EventType.regDenied.code then 0x04
  else if type = EventType.stateChanged.code then 0x08
  else if type = EventType.fault.code ∨ type = lostType then 0x10
  else 0

/-- `k < 32 ? 1 << k : 0`. -/
def bit (k : ℕ) : UInt32 := if k < 32 then 1 <<< UInt32.ofNat k else 0

/-- `dcp2_notify_filter_match` of an enabled subscription. -/
def NotifyFilter.accepts (f : NotifyFilter) (e : Event) : Bool :=
  decide (f.classMask &&& notifyEventClassMask e.type ≠ 0) && decide (f.sourceMask &&& bit e.source ≠ 0) &&
    decide (f.busMask &&& bit e.bus ≠ 0)

/-- The body that `dcp2_send_notify_event` builds. -/
def notifyBody (flags : UInt8) (e : Event) : Bytes :=
  (if flags &&& notifyTimestamp ≠ 0 then beBytes 8 e.timeUs else []) ++ beBytes 2 e.type ++ beBytes 2 e.status ++
    [UInt8.ofNat e.source,UInt8.ofNat e.bus,UInt8.ofNat e.operation,0] ++ beBytes 4 e.arg0 ++ beBytes 4 e.arg1 ++
      beBytes 4 e.arg2

def sendNotifyEvent (f : NotifyFilter) (e : Event) : Conn Unit := sendEvent serviceNotify opSubscribe (notifyBody f.flags e)

/-- The notice of lost records. -/
def lostEvent (now : UInt32) (bus lost : ℕ) : Event :=
  ⟨now.toNat * 1000,lostType,0,EventSource.internal.code,bus,EventOp.stateChange.code,0,min lost (2^32 - 1),0,0⟩

def notifyLost (f : NotifyFilter) (bus lost : ℕ) : Conn Unit := do
  if lost ≠ 0 then sendNotifyEvent f (lostEvent (← nowMs) bus lost)

/-- A record that the filter accepts is sent. -/
def notifyRecord (f : NotifyFilter) (record : JournalRecord) : Conn Unit := do
  if f.accepts record.event then sendNotifyEvent f record.event

/-- One bus of `dcp2_drain_notify_events`. -/
def drainNotifyBus (st : ConnState) (bus : ℕ) : Conn ConnState := do
  if st.notifyFilter.busMask &&& bit bus = 0 then return st
  else
    let batch ← observerRead bus channelEvents (st.notifyCursor bus)
    notifyLost st.notifyFilter bus batch.lost
    batch.records.forM (notifyRecord st.notifyFilter)
    return { st with notifyCursor := Function.update st.notifyCursor bus batch.next }

/-- `dcp2_drain_notify_events`. -/
def drainNotifyEvents (st : ConnState) : Conn ConnState :=
  if st.notifyEnabled then (List.range journalBuses).foldlM drainNotifyBus st else return st

/-! ## Streams -/

/-- `dcp2_stream_index`. -/
def streamIndex (srv : UInt8) : Option ℕ := if srv < serviceI2c ∨ serviceUart < srv then none else some (srv - serviceI2c).toNat

/-- The body that `dcp2_send_stream_event` builds. -/
def streamBody (flags : UInt8) (event : SimEvent) : Bytes :=
  (if flags &&& subTimestamp ≠ 0 then beBytes 8 event.timeUs else []) ++ [event.evFlags] ++ beBytes 4 event.lostDelta ++
    beBytes 2 event.data.val.length ++ event.data.val

/-- `dcp2_send_stream_event`. -/
def sendStreamEvent (st : ConnState) (event : SimEvent) : Conn Unit :=
  match streamIndex event.service with
  | none => return
  | some idx =>
    if st.streamEnabled idx = false then return
    else sendEvent event.service opSubscribe (streamBody (st.streamFlags idx) event)

/-- `BVT1`. -/
def telemetryMagic : Bytes := [66,86,84,49]

/-- What a journal record looks like in a stream. -/
def telemetryData (record : JournalRecord) : Bytes :=
  telemetryMagic ++ beBytes 8 record.sequence ++ beBytes 2 record.event.type ++ beBytes 2 record.event.status ++
    [UInt8.ofNat record.event.source,UInt8.ofNat record.event.bus,UInt8.ofNat record.event.operation,
      if record.event.bus = 0 then 8 else 16] ++
    beBytes 4 record.event.arg0 ++ beBytes 4 record.event.arg1 ++ beBytes 4 record.event.arg2

theorem telemetryData_length (record : JournalRecord) : (telemetryData record).length = 32 := by
  simp [telemetryData, telemetryMagic]

/-- The event of a record; the first of a batch tells what was lost before it. -/
def telemetryEvent (srv : UInt8) (lost : ℕ) (record : JournalRecord) : SimEvent where
  service := srv
  timeUs := record.event.timeUs
  evFlags := if lost = 0 then 0x02 else 0x02 ||| 0x01
  lostDelta := min lost (2^32 - 1)
  data := ⟨telemetryData record,by rw [telemetryData_length, streamDataMax]; decide⟩

def sendTelemetry (st : ConnState) (srv : UInt8) (lost : ℕ) (record : JournalRecord) : Conn Unit :=
  sendStreamEvent st (telemetryEvent srv lost record)

def sendBatch (st : ConnState) (srv : UInt8) (lost : ℕ) : List JournalRecord → Conn Unit
  | [] => return
  | record :: records => do
    sendTelemetry st srv lost record
    records.forM (sendTelemetry st srv 0)

/-- The synthetic event of a stream, if one is due. -/
def sendSynthetic (st : ConnState) (srv : UInt8) : Conn Unit := do
  match ← simNext srv with
  | none => return
  | some event => sendStreamEvent st { event with evFlags := event.evFlags ||| 0x04 }

/-- What the journal has for a stream. -/
def drainTelemetry (st : ConnState) (srv : UInt8) (idx : ℕ) : Conn ConnState := do
  let batch ← observerRead idx channelTelemetry (st.streamCursor idx)
  sendBatch st srv batch.lost batch.records
  return { st with streamCursor := Function.update st.streamCursor idx batch.next }

/-- One service of `dcp2_drain_stream_events`. -/
def drainStream (st : ConnState) (srv : UInt8) : Conn ConnState := do
  match streamIndex srv with
  | none => return st
  | some idx =>
    if st.streamEnabled idx = false then return st
    else
      sendSynthetic st srv
      if idx < journalBuses then drainTelemetry st srv idx else return st

/-- `dcp2_drain_stream_events`. -/
def drainStreamEvents (st : ConnState) : Conn ConnState := [serviceI2c,serviceMdio,serviceSpi,serviceUart].foldlM drainStream st

/-- The loop over cache events. -/
def sendCacheEvents : (left : ℕ) → Conn Unit
  | 0 => return
  | left + 1 => do
    let body ← cacheEvent
    if body.val = [] then return
    else
      sendEvent serviceCache opCacheSubscribe body.val
      sendCacheEvents left

/-! ## Requests -/

/-- The filter in the body of a subscription, or the status that refuses it. -/
def subscriptionFilter (body : Bytes) : Except ℕ NotifyFilter :=
  if body.length ≠ 13 then .error statusMalformed
  else
    let classMask := UInt32.ofNat (beAt body 0 4)
    let sourceMask := UInt32.ofNat (beAt body 4 4)
    let busMask := UInt32.ofNat (beAt body 8 4)
    let flags := body.getD 12 0
    if classMask = 0 ∨ sourceMask = 0 ∨ busMask = 0 then .error statusRange
    else if classMask &&& ~~~0x1F ≠ 0 then .error statusRange
    else if sourceMask &&& ~~~0x1F ≠ 0 ∨ busMask &&& ~~~0x1F ≠ 0 then .error statusRange
    else if flags &&& ~~~0x03 ≠ 0 then .error statusMalformed
    else .ok ⟨classMask,sourceMask,busMask,flags⟩

/-- A cursor is put at the head of its ring. -/
def notifyFromHead (st : ConnState) (bus : ℕ) : Conn ConnState := do
  let head ← observerHead bus channelEvents
  return { st with notifyCursor := Function.update st.notifyCursor bus head }

/-- What a handler leaves the connection in, and the status of its response. -/
abbrev Outcome := ConnState × ℕ

/-- `dcp2_handle_notify`, up to its response. -/
def handleNotify (st : ConnState) (opcode : UInt8) (body : Bytes) : Conn Outcome := do
  if opcode = opSubscribe then
    match subscriptionFilter body with
    | .error status => return (st,status)
    | .ok filter =>
      let st ← (List.range journalBuses).foldlM notifyFromHead { st with notifyEnabled := true, notifyFilter := filter }
      return (st,statusOk)
  else if opcode = opUnsubscribe then
    if body ≠ [] then return (st,statusMalformed)
    else return ({ st with notifyEnabled := false, notifyFilter := ⟨0,0,0,0⟩ },statusOk)
  else return (st,statusUnsupported)

def streamFromHead (st : ConnState) (idx : ℕ) : Conn ConnState := do
  if idx < journalBuses then
    let head ← observerHead idx channelTelemetry
    return { st with streamCursor := Function.update st.streamCursor idx head }
  else return st

/-- `dcp2_handle_stream_ctl`, up to its response. -/
def handleStreamCtl (st : ConnState) (srv opcode : UInt8) (body : Bytes) : Conn Outcome := do
  match streamIndex srv with
  | none => return (st,statusUnsupported)
  | some idx =>
    if opcode = opSubscribe then
      if body.length ≠ 1 then return (st,statusMalformed)
      else
        let flags := body.getD 0 0
        if flags &&& ~~~0x07 ≠ 0 then return (st,statusMalformed)
        else
          let st ← streamFromHead { st with
            streamEnabled := Function.update st.streamEnabled idx true
            streamFlags := Function.update st.streamFlags idx flags } idx
          if flags &&& subResetLost ≠ 0 then simResetLost srv
          return (st,statusOk)
    else if opcode = opUnsubscribe then
      if body ≠ [] then return (st,statusMalformed)
      else
        return ({ st with
          streamEnabled := Function.update st.streamEnabled idx false
          streamFlags := Function.update st.streamFlags idx 0 },statusOk)
    else return (st,statusUnsupported)

/-- The status of `dcp2_handle_ping`. -/
def pingStatus (opcode : UInt8) (body : Bytes) : ℕ :=
  if opcode ≠ opPing then statusUnsupported else if body ≠ [] then statusMalformed else statusOk

/-- `BVSTK_PL_HAS_I2C_CORE` and `BVSTK_PL_HAS_MDIO_CORE`. -/
structure Cores where
  i2c : Bool
  mdio : Bool
  deriving DecidableEq, Repr

/-- What a request comes to: the state after it, the status and the body of its response. -/
abbrev Reply := ConnState × ℕ × Fitting (maxPayloadSize - 6)

/-- A response without a body. -/
def bare (out : Outcome) : Reply := (out.1,out.2,⟨[],Nat.zero_le _⟩)

/-- A request that a service answers. -/
def handleService (st : ConnState) (backend : Backend) (opcode : UInt8) (body : Bytes) : Conn Reply := do
  let (status,answer) ← serve backend opcode body
  return (st,status,answer)

/-- A request that a session answers: nothing goes with an error. -/
def handleSession (st : ConnState) (backend : Backend) (opcode : UInt8) (body : Bytes) : Conn Reply := do
  let (status,answer) ← serve backend opcode body
  if status = statusOk then return (st,status,answer) else return bare (st,status)

/-- A bus service: subscriptions are the connection's own. -/
def handleBus (core : Option Backend) (st : ConnState) (srv opcode : UInt8) (body : Bytes) : Conn Reply :=
  if opcode = opSubscribe ∨ opcode = opUnsubscribe then bare <$> handleStreamCtl st srv opcode body
  else
    match core with
    | some backend => handleService st backend opcode body
    | none => return bare (st,statusUnsupported)

/-- `dcp2_dispatch_request`, up to the response. -/
def dispatchRequest (cores : Cores) (st : ConnState) (srv opcode : UInt8) (body : Bytes) : Conn Reply :=
  if srv = servicePing then return bare (st,pingStatus opcode body)
  else if srv = serviceMem then handleService st .mem opcode body
  else if srv = serviceCache then handleSession st .cache opcode body
  else if srv = serviceFs then handleSession st .fs opcode body
  else if srv = serviceNotify then bare <$> handleNotify st opcode body
  else if srv = serviceI2c then handleBus (if cores.i2c then some .i2c else none) st srv opcode body
  else if srv = serviceMdio then handleBus (if cores.mdio then some .mdio else none) st srv opcode body
  else if srv = serviceSpi then handleBus none st srv opcode body
  else if srv = serviceUart then handleBus none st srv opcode body
  else return bare (st,statusUnsupported)

/-- A payload that is no request: it is marked as a response or as an event, or has no number. -/
def isRefused (payload : Bytes) : Bool :=
  let op := payload.getD 1 0
  decide (op &&& opEvent ≠ 0) || decide (op &&& opResponse ≠ 0) || decide (beAt payload 2 2 = 0)

/-- `dcp2_handle_frame`. It does not matter whether a refusal could be sent. -/
def handleFrame (cores : Cores) (st : ConnState) (payload : Bytes) : Conn ConnState := do
  if payload.length < minPayload then failure
  else
    let srv := payload.getD 0 0
    let opcode := payload.getD 1 0 &&& opMask
    let seq := UInt16.ofNat (beAt payload 2 2)
    if isRefused payload then
      (sendResponse srv opcode seq statusMalformed []).regardless
      return st
    else
      let (st,status,answer) ← dispatchRequest cores st srv opcode (payload.drop minPayload)
      sendResponse srv opcode seq status answer.val
      return st

/-! ## The connection -/

/-- The length of the payload that a header announces, if it is one. -/
def announced (header : Bytes) : Option ℕ :=
  let payloadLen := beAt header 6 2
  if header.take 4 ≠ magic ∨ beAt header 4 2 ≠ version ∨ payloadLen < minPayload ∨ maxPayloadSize < payloadLen then none
  else some payloadLen

/-- A request is read and handled. -/
def receive (cores : Cores) (st : ConnState) : Conn ConnState := do
  let header ← (← readHeader).getM
  let payloadLen ← (announced header.val).getM
  let payload ← (← readPayload payloadLen).getM
  handleFrame cores st payload.val

/-- What happens between two requests. -/
def drain (st : ConnState) : Conn ConnState := do
  expireFiles
  let st ← drainNotifyEvents st
  let st ← drainStreamEvents st
  sendCacheEvents 32
  return st

/-- One turn of the loop. -/
def turn (cores : Cores) (st : ConnState) : Conn ConnState := do
  let st ← drain st
  match ← waitReadable with
  | .failed => failure
  | .timeout => return st
  | .ready => receive cores st

/-- The loop of `dcp2_handle_client`, looked at after some turns. -/
def serveClient (cores : Cores) : (turns : ℕ) → ConnState → Program Call Answer Unit
  | 0, _ => .unfinished
  | turns + 1, st => do
    match ← (turn cores st).run with
    | none => return
    | some st => serveClient cores turns st

/-- `dcp2_handle_client`. -/
def handleClient (cores : Cores) (turns : ℕ) : Program Call Answer Unit := serveClient cores turns .zero

end Bvstk.Dcp2.Server
