import Bvstk.I2c.MasterService

/-! # The I2C slave service

`bvstk_i2c_slave_service.c`: the host side. A frame from the host sets the register
pointer and writes what follows through the master service, byte by byte; a read phase
is answered from the cache.
-/
namespace Bvstk.I2c
open Config Events CallLog
variable {ε : Type}

structure SlaveService where
  targetDevice : ℕ
  registerPointer : ℕ → UInt8
  readArmed : ℕ → Bool

/-- The slave service over the master service and the objects they share. -/
structure I2cHost (ε : Type) where
  slave : SlaveService
  world : I2cWorld ε

def slaveServiceInit (s : I2cState) (targetDevice : ℕ) : Except Status SlaveService :=
  if s.devices.count ≤ targetDevice then .error .malformed
  else .ok ⟨targetDevice,fun _ => 0,fun _ => false⟩

def SlaveService.arm (s : SlaveService) (device : ℕ) (armed : Bool) : SlaveService :=
  { s with readArmed := Function.update s.readArmed device armed }

def SlaveService.point (s : SlaveService) (device : ℕ) (reg : UInt8) : SlaveService :=
  { s with registerPointer := Function.update s.registerPointer device reg }

def slaveServiceSetTarget (h : I2cHost ε) (targetDevice : ℕ) : Status × I2cHost ε :=
  if h.world.state.devices.count ≤ h.slave.targetDevice then (.notFound,h)
  else if h.world.state.devices.count ≤ targetDevice then (.notFound,h)
  else (.ok,{ h with slave := { h.slave with targetDevice := targetDevice } })

def slaveServiceEndTransaction (h : I2cHost ε) : I2cHost ε :=
  if h.world.state.devices.count ≤ h.slave.targetDevice then h
  else { h with slave := h.slave.arm h.slave.targetDevice false }

/-! ## Reads -/

/-- The cached registers from `reg` on, up to the first that is not cached. -/
def cachedWindow (c : RegisterCache) (deviceId regCount : ℕ) : (capacity reg : ℕ) → List UInt8
  | 0, _ => []
  | capacity + 1, reg =>
    if reg < regCount ∧ cacheIsValid c deviceId (UInt8.ofNat reg) = true then
      (c.entries deviceId (UInt8.ofNat reg)).value :: cachedWindow c deviceId regCount capacity (reg + 1)
    else []

/-- One host read does not become a burst of slow transfers: a first register that is
not cached is fetched alone. -/
def loadWindow (P : I2cPlatform ε) (w : I2cWorld ε) (deviceId : ℕ) (reg : UInt8) (capacity timeoutMs : ℕ) :
    (Status × List UInt8) × I2cWorld ε :=
  match devicesGet w.state.devices deviceId with
  | .error status => ((status,[]),w)
  | .ok device =>
    if device.regCount ≤ reg.toNat then ((.range,[]),w)
    else if capacity = 0 ∨ cacheIsValid w.state.cache deviceId reg = true then
      ((.ok,cachedWindow w.state.cache deviceId device.regCount capacity reg.toNat),w)
    else
      let ((status,value),w) := masterServiceReadFrom P w deviceId reg .host timeoutMs
      if status ≠ .ok then ((status,[]),w) else ((.ok,[value]),w)

/-- One `SLAVE_REPLY_PREPARED` for each byte of the window. -/
def observeReplies (P : I2cPlatform ε) (target : ℕ) : (reg : ℕ) → List UInt8 → I2cWorld ε → I2cWorld ε
  | _, [], w => w
  | reg, value :: window, w =>
    observeReplies P target (reg + 1) window
      (masterServiceObserve P w target .slaveReplyPrepared .read (UInt8.ofNat reg).toNat value .ok)

def handleReadPhase (P : I2cPlatform ε) (h : I2cHost ε) (device : I2cDevice) (capacity timeoutMs : ℕ) :
    (Status × List UInt8) × I2cHost ε :=
  let target := h.slave.targetDevice
  let pointer := h.slave.registerPointer target
  let w := masterServiceObserve P h.world target .slaveReadRequest .read pointer.toNat 0 .ok
  if h.slave.readArmed target = false then ((.ok,[]),{ h with world := w })
  else
    let reg := if device.regCount ≤ pointer.toNat then 0 else pointer.toNat
    let ((status,window),w) := loadWindow P w target (UInt8.ofNat reg) capacity timeoutMs
    if status ≠ .ok then ((status,[]),{ h with world := w })
    else
      let w := observeReplies P target reg window w
      let next := if window.length ≠ 0 ∧ reg + window.length < device.regCount then reg + window.length else 0
      ((.ok,window),⟨h.slave.point target (UInt8.ofNat next),w⟩)

/-! ## Writes -/

/-- One `CAPTURE_WRITE` for each data byte. -/
def observeCaptures (P : I2cPlatform ε) (target : ℕ) : (reg : ℕ) → List UInt8 → I2cWorld ε → I2cWorld ε
  | _, [], w => w
  | reg, value :: data, w =>
    observeCaptures P target (reg + 1) data (masterServiceObserve P w target .captureWrite .write reg value .ok)

/-- Audits the bytes that are not forwarded. -/
def auditTail (P : I2cPlatform ε) (target : ℕ) (status : Status) : (reg : ℕ) → List UInt8 → I2cWorld ε → I2cWorld ε
  | _, [], w => w
  | reg, value :: data, w =>
    let w := masterServiceObserve P w target .regAttempt .write reg value .ok
    auditTail P target status (reg + 1) data (masterServiceObserve P w target .fault .write reg value status)

/-- Forwards the data bytes up to the first that is refused or fails. -/
def forwardBytes (P : I2cPlatform ε) (target regCount timeoutMs : ℕ) :
    (reg : ℕ) → List UInt8 → I2cWorld ε → Status × I2cWorld ε
  | _, [], w => (.ok,w)
  | reg, value :: data, w =>
    if regCount ≤ reg then (.ok,auditTail P target .range reg (value :: data) w)
    else
      let (status,w) := masterServiceWrite P w target (UInt8.ofNat reg) value .host timeoutMs
      -- stop forwarding on an error, but audit the rest
      if status ≠ .ok then (status,auditTail P target .notReady (reg + 1) data w)
      else forwardBytes P target regCount timeoutMs (reg + 1) data w

def handleWritePhase (P : I2cPlatform ε) (h : I2cHost ε) (device : I2cDevice) (frame : List UInt8) (timeoutMs : ℕ) :
    Status × I2cHost ε :=
  let target := h.slave.targetDevice
  -- an invalid frame must not leave an older read armed
  let slave := h.slave.arm target false
  match frame with
  | [] => (.malformed,⟨slave,h.world⟩)
  | reg :: data =>
    let w := masterServiceObserve P h.world target .slavePointer .write reg.toNat reg .ok
    let w := observeCaptures P target reg.toNat data w
    if device.regCount ≤ reg.toNat then (.range,⟨slave,auditTail P target .range reg.toNat data w⟩)
    else
      let slave := (slave.point target reg).arm target data.isEmpty
      let (status,w) := forwardBytes P target device.regCount timeoutMs reg.toNat data w
      (status,⟨slave,w⟩)

/-- The status and the read window of `bvstk_i2c_slave_service_handle_frame`. -/
def slaveServiceHandleFrame (P : I2cPlatform ε) (h : I2cHost ε) (frame : List UInt8) (readPhase : Bool)
    (capacity timeoutMs : ℕ) : (Status × List UInt8) × I2cHost ε :=
  match devicesGet h.world.state.devices h.slave.targetDevice with
  | .error status => ((status,[]),h)
  | .ok device =>
    if readPhase = true then handleReadPhase P h device capacity timeoutMs
    else
      let (status,h) := handleWritePhase P h device frame timeoutMs
      ((status,[]),h)

end Bvstk.I2c
