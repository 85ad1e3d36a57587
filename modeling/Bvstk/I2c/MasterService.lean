import Bvstk.Events.Event
import Bvstk.I2c.Policy
import Bvstk.Library.CallLog
import Mathlib.Logic.Function.Basic

/-! # The I2C master service

`bvstk_i2c_cache.c` and `bvstk_i2c_master_service.c`: register access to the devices of
the table, checked against their policies, with a cache of the last values. The bus, the
clock, the event sink and the cache observer are all outside; what is called there is
recorded.
-/
namespace Bvstk.I2c
open Config Events CallLog

/-! ## State -/

structure RegisterEntry where
  value : UInt8
  valid : Bool
  seeded : Bool
  updatedMs : UInt64
  deriving DecidableEq, Repr

def RegisterEntry.zero : RegisterEntry := ⟨0,false,false,0⟩

structure RegisterCache where
  entries : ℕ → UInt8 → RegisterEntry
  deviceCount : ℕ

def cacheInit (deviceCount : ℕ) : Except Status RegisterCache :=
  if i2cMaxDevices < deviceCount then .error .malformed
  else .ok ⟨fun _ _ => RegisterEntry.zero,deviceCount⟩

def RegisterCache.set (c : RegisterCache) (deviceId : ℕ) (reg : UInt8) (e : RegisterEntry) : RegisterCache :=
  { c with entries := Function.update c.entries deviceId (Function.update (c.entries deviceId) reg e) }

/-- `bvstk_i2c_presence_t`: the last physical result. -/
inductive Presence where
  | unknown | responding | unavailable
  deriving DecidableEq, Repr

/-- The service with the objects it was initialised with; their sizes agree. -/
structure I2cState where
  devices : I2cDevices
  cache : RegisterCache
  policy : I2cPolicy
  presence : ℕ → Presence
  cacheSize : cache.deviceCount = devices.count
  policySize : policy.items.length = devices.count

def masterServiceInit (devices : I2cDevices) (cache : RegisterCache) (policy : I2cPolicy) : Except Status I2cState :=
  if h : cache.deviceCount = devices.count ∧ policy.items.length = devices.count then
    .ok ⟨devices,cache,policy,fun _ => .unknown,h.1,h.2⟩
  else .error .malformed

/-- What the service calls outside. -/
inductive I2cCall where
  | readReg (addr reg : UInt8) (status : Status)
  | writeReg (addr reg value : UInt8) (status : Status)
  | publish (event : Event)
  | entry (device : ℕ) (resource : UInt8) (e : RegisterEntry)
  | presence (device : ℕ) (presence : Presence)
  | configChanged (device : ℕ) (config : I2cDeviceConfig)

/-- The bus and the clock, which may answer anything. -/
structure I2cPlatform (ε : Type) where
  nowMs : ε → UInt64 × ε
  readReg : ε → (addr reg : UInt8) → (timeoutMs : ℕ) → (Status × UInt8) × ε
  writeReg : ε → (addr reg value : UInt8) → (timeoutMs : ℕ) → Status × ε

abbrev I2cWorld (ε : Type) := World I2cState ε I2cCall

variable {ε : Type}

def I2cState.setEntry (s : I2cState) (deviceId : ℕ) (reg : UInt8) (e : RegisterEntry) : I2cState :=
  { s with cache := s.cache.set deviceId reg e }

def I2cState.setPresence (s : I2cState) (deviceId : ℕ) (p : Presence) : I2cState :=
  { s with presence := Function.update s.presence deviceId p }

/-! ## The register cache -/

/-- Rewrites an entry and tells the observer. -/
def cacheSet (w : I2cWorld ε) (deviceId : ℕ) (reg : UInt8) (e : RegisterEntry) : I2cWorld ε :=
  World.call { w with state := w.state.setEntry deviceId reg e } (.entry deviceId reg e)

def cacheWrite (P : I2cPlatform ε) (w : I2cWorld ε) (deviceId : ℕ) (reg value : UInt8) : Status × I2cWorld ε :=
  if w.state.cache.deviceCount ≤ deviceId then (.range,w)
  else
    let (now,env) := P.nowMs w.env
    (.ok,cacheSet { w with env := env } deviceId reg ⟨value,true,false,now⟩)

def cacheSeed (P : I2cPlatform ε) (w : I2cWorld ε) (deviceId : ℕ) (reg value : UInt8) : Status × I2cWorld ε :=
  if w.state.cache.deviceCount ≤ deviceId then (.range,w)
  else
    let (now,env) := P.nowMs w.env
    (.ok,cacheSet { w with env := env } deviceId reg ⟨value,true,true,now⟩)

/-- The value stays in memory; the observer is told zero. -/
def cacheInvalidate (w : I2cWorld ε) (deviceId : ℕ) (reg : UInt8) : Status × I2cWorld ε :=
  if w.state.cache.deviceCount ≤ deviceId then (.range,w)
  else
    let e := w.state.cache.entries deviceId reg
    (.ok,World.call { w with state := w.state.setEntry deviceId reg { e with valid := false, seeded := false, updatedMs := 0 } }
      (.entry deviceId reg RegisterEntry.zero))

def cacheIsValid (c : RegisterCache) (deviceId : ℕ) (reg : UInt8) : Bool :=
  decide (deviceId < c.deviceCount) && (c.entries deviceId reg).valid

/-! ## Events and responses -/

def emitFlags (P : I2cPlatform ε) (w : I2cWorld ε) (type : EventType) (status : Status) (source : EventSource)
    (operation : EventOp) (device : I2cDevice) (reg : ℕ) (value : UInt8) (flags : ℕ) : I2cWorld ε :=
  let (now,env) := P.nowMs w.env
  World.call { w with env := env } (.publish
    { timeUs := (now * 1000).toNat
      type := type.code
      status := status.code
      source := source.code
      bus := EventBus.i2c.code
      operation := operation.code
      flags := flags
      arg0 := device.addr7b.toNat
      arg1 := reg
      arg2 := value.toNat })

def emit (P : I2cPlatform ε) (w : I2cWorld ε) (type : EventType) (status : Status) (source : EventSource)
    (operation : EventOp) (device : I2cDevice) (reg : ℕ) (value : UInt8) : I2cWorld ε :=
  emitFlags P w type status source operation device reg value eventFlagNone

def presenceConfirmed (s : I2cState) (deviceId : ℕ) : Bool :=
  decide (deviceId < i2cMaxDevices ∧ s.presence deviceId = .responding)

/-- The presence after a response, `old` unless the response says something about it. -/
def presenceAfter (old : Presence) (status : Status) (read : Bool) : Presence :=
  if status = .ok ∧ read = true then .responding
  else if status = .io ∨ status = .timeout ∨ status = .notFound then .unavailable
  else old

def recordResponse (w : I2cWorld ε) (deviceId : ℕ) (address : UInt8) (status : Status) (read : Bool) : I2cWorld ε :=
  match devicesGet w.state.devices deviceId with
  | .error _ => w
  | .ok current =>
    if current.addr7b ≠ address then w
    else
      let p := presenceAfter (w.state.presence deviceId) status read
      World.call { w with state := w.state.setPresence deviceId p } (.presence deviceId p)

/-- A configuration change can complete while hardware I/O is waiting: a reply for the
old address stays out of the new device's cache. -/
def cacheResponse (P : I2cPlatform ε) (w : I2cWorld ε) (deviceId : ℕ) (target : I2cDevice) (reg value : UInt8)
    (status : Status) : I2cWorld ε :=
  match devicesGet w.state.devices deviceId with
  | .error _ => w
  | .ok current =>
    if current.addr7b = target.addr7b ∧ current.name = target.name ∧ reg.toNat < current.regCount then
      if status = .ok then (cacheWrite P w deviceId reg value).2 else (cacheInvalidate w deviceId reg).2
    else w

def backendRead (P : I2cPlatform ε) (w : I2cWorld ε) (device : I2cDevice) (reg : UInt8) (timeoutMs : ℕ) :
    (Status × UInt8) × I2cWorld ε :=
  let (result,env) := P.readReg w.env device.addr7b reg timeoutMs
  (result,World.call { w with env := env } (.readReg device.addr7b reg result.1))

def backendWrite (P : I2cPlatform ε) (w : I2cWorld ε) (device : I2cDevice) (reg value : UInt8) (timeoutMs : ℕ) :
    Status × I2cWorld ε :=
  let (status,env) := P.writeReg w.env device.addr7b reg value timeoutMs
  (status,World.call { w with env := env } (.writeReg device.addr7b reg value status))

def masterServiceObserve (P : I2cPlatform ε) (w : I2cWorld ε) (deviceId : ℕ) (type : EventType) (op : EventOp)
    (reg : ℕ) (value : UInt8) (status : Status) : I2cWorld ε :=
  match devicesGet w.state.devices deviceId with
  | .error _ => w
  | .ok device =>
    emitFlags P w type status .host op device reg value
      (if type = .slaveReplyPrepared then eventFlagTelemetryUnconfirmed else eventFlagNone)

/-! ## Reads and writes -/

/-- The flag of a transfer to a device that has not answered yet. -/
def confirmedFlag (wasPresent : Bool) (status : Status) : ℕ :=
  if wasPresent = true ∨ status = .ok then eventFlagNone else eventFlagTelemetryUnconfirmed

def masterServiceReadFrom (P : I2cPlatform ε) (w : I2cWorld ε) (deviceId : ℕ) (reg : UInt8) (source : EventSource)
    (timeoutMs : ℕ) : (Status × UInt8) × I2cWorld ε :=
  match devicesGet w.state.devices deviceId with
  | .error status => ((status,0),w)
  | .ok device =>
    if device.regCount ≤ reg.toNat then ((.range,0),w)
    else
      let wasPresent := presenceConfirmed w.state deviceId
      let ((status,value),w) := backendRead P w device reg timeoutMs
      let shown := if status = .ok then value else 0
      let w := recordResponse w deviceId device.addr7b status true
      let w := emitFlags P w .masterRead status source .read device reg.toNat shown
        (confirmedFlag wasPresent status)
      let w := cacheResponse P w deviceId device reg shown status
      ((status,value),w)

def masterServiceReadCached (s : I2cState) (deviceId : ℕ) (reg : UInt8) : Except Status UInt8 :=
  match devicesGet s.devices deviceId with
  | .error status => .error status
  | .ok device =>
    if device.regCount ≤ reg.toNat ∨ s.cache.deviceCount ≤ deviceId then .error .range
    else .ok (s.cache.entries deviceId reg).value

/-- The part of a write after the policy has permitted it. -/
def forwardWrite (P : I2cPlatform ε) (w : I2cWorld ε) (deviceId : ℕ) (device : I2cDevice) (reg value : UInt8)
    (source : EventSource) (wasPresent : Bool) (timeoutMs : ℕ) : Status × I2cWorld ε :=
  let (status,w) := backendWrite P w device reg value timeoutMs
  let w := recordResponse w deviceId device.addr7b status false
  let w := emitFlags P w .masterWrite status source .write device reg.toNat value (confirmedFlag wasPresent status)
  if status ≠ .ok then
    let w := emit P w .fault status source .write device reg.toNat value
    (status,cacheResponse P w deviceId device reg 0 status)
  else
    let w := cacheResponse P w deviceId device reg value .ok
    (.ok,emit P w .regCommit .ok source .write device reg.toNat value)

def masterServiceWrite (P : I2cPlatform ε) (w : I2cWorld ε) (deviceId : ℕ) (reg value : UInt8) (source : EventSource)
    (timeoutMs : ℕ) : Status × I2cWorld ε :=
  match devicesGet w.state.devices deviceId with
  | .error status => (status,w)
  | .ok device =>
    let wasPresent := presenceConfirmed w.state deviceId
    let w := emit P w .regAttempt .ok source .write device reg.toNat value
    if device.regCount ≤ reg.toNat ∨ device.maxValueCode < value then
      (.range,emit P w .fault .range source .write device reg.toNat value)
    else if policyPermits w.state.policy deviceId device reg value = false then
      (.denied,emit P w .regDenied .denied source .write device reg.toNat value)
    else forwardWrite P w deviceId device reg value source wasPresent timeoutMs

/-! ## Rules and configuration -/

/-- Takes over an edited policy of the same size. -/
def setPolicy (w : I2cWorld ε) (out : Status × I2cPolicy)
    (h : out.2.items.length = w.state.policy.items.length) : Status × I2cWorld ε :=
  (out.1,{ w with state := { w.state with policy := out.2, policySize := h.trans w.state.policySize } })

def masterServiceSetPolicy (w : I2cWorld ε) (deviceId mode : ℕ) : Status × I2cWorld ε :=
  if w.state.devices.count ≤ deviceId then (.notFound,w)
  else setPolicy w (policySetMode w.state.policy deviceId mode) (edit_length _ _ _)

def masterServiceRuleAllow (w : I2cWorld ε) (deviceId : ℕ) (reg value : UInt8) : Status × I2cWorld ε :=
  match devicesGet w.state.devices deviceId with
  | .error status => (status,w)
  | .ok device => setPolicy w (policyAddAllow w.state.policy deviceId reg value device) (edit_length _ _ _)

def masterServiceRuleDeny (w : I2cWorld ε) (deviceId : ℕ) (reg value : UInt8) : Status × I2cWorld ε :=
  match devicesGet w.state.devices deviceId with
  | .error status => (status,w)
  | .ok device => setPolicy w (policyAddDeny w.state.policy deviceId reg value device) (edit_length _ _ _)

def masterServiceRuleClear (w : I2cWorld ε) (deviceId : ℕ) (reg value : UInt8) : Status × I2cWorld ε :=
  if w.state.devices.count ≤ deviceId then (.notFound,w)
  else setPolicy w (policyRemove w.state.policy deviceId reg value) (edit_length _ _ _)

def masterServiceRuleRemove (w : I2cWorld ε) (deviceId list : ℕ) (reg value : UInt8) : Status × I2cWorld ε :=
  match devicesGet w.state.devices deviceId with
  | .error status => (status,w)
  | .ok device =>
    if PolicyMode.ofCode list = none then (.malformed,w)
    else if device.regCount ≤ reg.toNat ∨ device.maxValueCode < value then (.range,w)
    else setPolicy w (policyRemoveList w.state.policy deviceId list reg value) (edit_length _ _ _)

def masterServiceRuleClearList (w : I2cWorld ε) (deviceId list : ℕ) : Status × I2cWorld ε :=
  if w.state.devices.count ≤ deviceId then (.notFound,w)
  else setPolicy w (policyClear w.state.policy deviceId list) (edit_length _ _ _)

def setDevice (w : I2cWorld ε) (deviceId : ℕ) (item : I2cDevice) : Status × I2cWorld ε :=
  ((devicesSet w.state.devices deviceId item).1,{ w with
    state := { w.state with
      devices := (devicesSet w.state.devices deviceId item).2
      cacheSize := w.state.cacheSize.trans (devicesSet_length _ _ _).symm
      policySize := w.state.policySize.trans (devicesSet_length _ _ _).symm } })

/-- `for (r = 0; r < I2C_CFG_MAX_REG_COUNT; ++r) invalidate`, from register `r` on. -/
def invalidateFrom (deviceId : ℕ) : (left r : ℕ) → I2cWorld ε → I2cWorld ε
  | 0, _, w => w
  | left + 1, r, w => invalidateFrom deviceId left (r + 1) (cacheInvalidate w deviceId (UInt8.ofNat r)).2

/-- The descriptor of a configuration. -/
def deviceOf (config : I2cDeviceConfig) : I2cDevice :=
  ⟨config.name.take (i2cNameMax - 1),config.addr7b,config.regCount,config.maxValueCode⟩

/-- A device with another address or size starts unknown, with nothing cached. -/
def dropOldDevice (w : I2cWorld ε) (deviceId : ℕ) (previous device : I2cDevice) : I2cWorld ε :=
  if previous.addr7b ≠ device.addr7b ∨ previous.regCount ≠ device.regCount then
    invalidateFrom deviceId i2cMaxRegCount 0 { w with state := w.state.setPresence deviceId .unknown }
  else w

/-- The last step of a new configuration: the policy, and the callback if it was possible. -/
def applyPolicyConfig (w : I2cWorld ε) (deviceId : ℕ) (config : I2cDeviceConfig) : Status × I2cWorld ε :=
  let (status,w) := setPolicy w (policySetConfig w.state.policy deviceId config) (edit_length _ _ _)
  (status,if status = .ok then w.call (.configChanged deviceId config) else w)

def masterServiceSetConfig (w : I2cWorld ε) (deviceId : ℕ) (config : I2cDeviceConfig) : Status × I2cWorld ε :=
  match devicesGet w.state.devices deviceId with
  | .error status => (status,w)
  | .ok previous =>
    if config.name = [] ∨ config.regCount = 0 ∨ i2cMaxRegCount < config.regCount ∨ 0x7F < config.addr7b then
      (.malformed,w)
    else
      let device := deviceOf config
      let (status,w) := setDevice w deviceId device
      if status ≠ .ok then (status,w)
      else applyPolicyConfig (dropOldDevice w deviceId previous device) deviceId config

end Bvstk.I2c
