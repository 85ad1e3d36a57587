import Bvstk.Console.I2cEditors
import Bvstk.I2c.CacheCapture
import Bvstk.Library.Wire
import Bvstk.Web.I2cPut

/-! # The control surfaces of the I2C devices

A device has two configurations: the live one of the service and the one of the store.
Rules are edited through the service, the console, the DCP2 server and the HTTP server, and
each of them brings the two together in its own way.
-/
namespace Bvstk.Surfaces
open Config Events I2c Console Web RuleSets

/-- The service and the store. -/
structure Runtime (ε : Type) where
  world : I2cWorld ε
  store : ConfigStore

variable {ε : Type}

/-! ## Start -/

/-- `initialize_i2c`, up to the hardware. -/
def initializeI2c (P : I2cPlatform ε) (store : ConfigStore) (env : ε) : Option (Runtime ε) :=
  let configs := store.map (·.toI2cDeviceConfig)
  match devicesInitFromConfig configs, cacheInit configs.length, policyInit configs with
  | .ok devices, .ok cache, .ok policy =>
    match masterServiceInit devices cache policy with
    | .ok s => some ⟨seedDevices P store 0 ⟨s,env,[]⟩,store⟩
    | .error _ => none
  | _, _, _ => none

/-- `bvstk_i2c_master_service_get_config`. -/
def masterServiceGetConfig (s : I2cState) (deviceId : ℕ) : Option I2cFileConfig :=
  match s.devices.items[deviceId]?, s.policy.items[deviceId]? with
  | some device, some policy =>
    some ⟨⟨device.name,device.addr7b,device.regCount,device.maxValueCode,policy.mode.code,policy.whitelist,policy.blacklist,
      .zero⟩,[],[]⟩
  | _, _ => none

/-! ## Operations of the service -/

/-- The calls that edit the policy of a device; modes and lists are numbers. -/
inductive RuleCall where
  | setPolicy (mode : ℕ)
  | allow (reg value : UInt8)
  | deny (reg value : UInt8)
  | clear (reg value : UInt8)
  | remove (list : ℕ) (reg value : UInt8)
  | clearList (list : ℕ)

def RuleCall.run (w : I2cWorld ε) (deviceId : ℕ) : RuleCall → Status × I2cWorld ε
  | .setPolicy mode => masterServiceSetPolicy w deviceId mode
  | .allow reg value => masterServiceRuleAllow w deviceId reg value
  | .deny reg value => masterServiceRuleDeny w deviceId reg value
  | .clear reg value => masterServiceRuleClear w deviceId reg value
  | .remove list reg value => masterServiceRuleRemove w deviceId list reg value
  | .clearList list => masterServiceRuleClearList w deviceId list

/-! ## The console -/

/-- `apply_config`; a request over HTTP does the same. -/
def applyConfig (x : Runtime ε) (config : I2cFileConfig) : Bool × Runtime ε :=
  match runtimeI2cApplyConfig x.world config with
  | (false,w) => (false,{ x with world := w })
  | (true,w) =>
    match configStoreSet x.store config with
    | none => (false,{ x with world := w })
    | some store => (true,⟨w,store⟩)

def signAt : UInt8 := 64

/-- `select_device`: the number of the service's device, and a stored configuration. -/
def selectDevice (x : Runtime ε) (token : Word) : Option (ℕ × I2cFileConfig) :=
  match if token.head? = some signAt then none else masterServiceFindByName x.world.state token with
  | some id => ((configStoreFindByName x.store token).bind (x.store[·]?)).map fun config => (id,config)
  | none =>
    match busShellNumber (if token.head? = some signAt then token.drop 1 else token) 0x7F with
    | .error _ => none
    | .ok address =>
      match masterServiceFindByAddr x.world.state (UInt8.ofNat address) with
      | none => none
      | some id =>
        ((configStoreFindByAddr x.store (UInt8.ofNat address)).bind (x.store[·]?)).map fun config => (id,config)

/-- The end of a command that edits a copy of the stored configuration. -/
def applyEdited (x : Runtime ε) (edited : Status × I2cFileConfig) : Status × Runtime ε :=
  if edited.1 ≠ .ok then (edited.1,x)
  else (if (applyConfig x edited.2).1 then .ok else .internal,(applyConfig x edited.2).2)

/-- `cmd_policy` for a selected device. Words that only ask for something are refused here. -/
def consolePolicy (x : Runtime ε) (token : Word) (words : List Word) : Status × Runtime ε :=
  match selectDevice x token with
  | none => (.notFound,x)
  | some (_,config) => applyEdited x (cmdPolicy config words)

/-- The copy that `cmd_address` applies. -/
def cmdAddress (config : I2cFileConfig) (text : Word) : Status × I2cFileConfig :=
  match busShellNumber text 0x7F with
  | .error status => (status,config)
  | .ok address => (.ok,{ config with addr7b := UInt8.ofNat address })

def consoleAddress (x : Runtime ε) (token text : Word) : Status × Runtime ε :=
  match selectDevice x token with
  | none => (.notFound,x)
  | some (_,config) => applyEdited x (cmdAddress config text)

/-- A copy of the service's configuration in the store, as far as it can be made. -/
def syncDevice (x : Runtime ε) (deviceId : ℕ) : Bool × Runtime ε :=
  match runtimeI2cSyncDevice x.world.state x.store deviceId with
  | none => (false,x)
  | some store => (true,{ x with store := store })

def syncPolicy (x : Runtime ε) (deviceId : ℕ) : Bool × Runtime ε :=
  match runtimeI2cSyncPolicy x.world.state x.store deviceId with
  | none => (false,x)
  | some store => (true,{ x with store := store })

/-- `cmd_write`. -/
def consoleWrite (P : I2cPlatform ε) (x : Runtime ε) (token reg value : Word) : Status × Runtime ε :=
  match selectDevice x token with
  | none => (.notFound,x)
  | some (id,config) =>
    match busShellNumber reg (config.regCount - 1) with
    | .error status => (status,x)
    | .ok reg =>
      match busShellNumber value config.maxValueCode.toNat with
      | .error status => (status,x)
      | .ok value =>
        let (status,w) := masterServiceWrite P x.world id (UInt8.ofNat reg) (UInt8.ofNat value) .console 100
        let x := { x with world := w }
        if status ≠ .ok then (status,x)
        else (if (syncDevice x id).1 then .ok else .internal,(syncDevice x id).2)

/-! ## The DCP2 server -/

def opPolicySet : ℕ := 2
def opPolicyGet : ℕ := 3
def opPolicyRuleAdd : ℕ := 4
def opPolicyRuleDelete : ℕ := 5
def opPolicyClear : ℕ := 6
def maxPayload : ℕ := 4096

/-- `policy_status`. -/
def policyStatus : Status → Status
  | .notFound => .range
  | .notReady => .busy
  | status => status

/-- The length a request has. -/
def policyBodySize (opcode : ℕ) : ℕ :=
  if opcode = opPolicyGet then 1 else if opcode = opPolicyRuleAdd ∨ opcode = opPolicyRuleDelete then 4 else 2

/-- The body of an answer: mode, lengths, and the rules of both lists. -/
def policySnapshot (policy : I2cPolicyEntry) : List UInt8 :=
  UInt8.ofNat policy.mode.code :: Wire.beBytes 2 policy.whitelist.length ++ Wire.beBytes 2 policy.blacklist.length ++
    (policy.whitelist ++ policy.blacklist).flatMap fun rule => [rule.reg,rule.val]

/-- The call that an opcode and the rest of the body stand for. -/
def policyCall (opcode : ℕ) (list : UInt8) (rule : List UInt8) : RuleCall :=
  if opcode = opPolicySet then .setPolicy list.toNat
  else if opcode = opPolicyClear then .clearList list.toNat
  else if opcode = opPolicyRuleDelete then .remove list.toNat (rule[0]?.getD 0) (rule[1]?.getD 0)
  else if list = 0 then .allow (rule[0]?.getD 0) (rule[1]?.getD 0)
  else .deny (rule[0]?.getD 0) (rule[1]?.getD 0)

/-- `bvstk_dcp2_process_policy` for an I2C device. -/
def processPolicy (w : I2cWorld ε) (opcode : ℕ) (body : List UInt8) : (Status × List UInt8) × I2cWorld ε :=
  if opcode < opPolicySet ∨ opPolicyClear < opcode then ((.unsupported,[]),w)
  else if body.length ≠ policyBodySize opcode then ((.malformed,[]),w)
  else
    match body with
    | [] => ((.malformed,[]),w)
    | address :: rest =>
      if opcode ≠ opPolicyGet ∧ 1 < rest.headD 0 then ((.malformed,[]),w)
      else if 127 < address then ((.range,[]),w)
      else
        match masterServiceFindByAddr w.state address with
        | none => ((policyStatus .notFound,[]),w)
        | some deviceId =>
          if opcode = opPolicyGet then
            match masterServiceGetPolicy w.state deviceId with
            | none => ((policyStatus .notFound,[]),w)
            | some policy =>
              if i2cRulesMax < policy.whitelist.length ∨ i2cRulesMax < policy.blacklist.length ∨
                  maxPayload - 6 < (policySnapshot policy).length then ((.range,[]),w)
              else ((.ok,policySnapshot policy),w)
          else
            let (status,w) := (policyCall opcode (rest.headD 0) (rest.drop 1)).run w deviceId
            ((policyStatus status,[]),w)

/-- The part of `dcp2_handle_policy` after the policy was processed. A mode is copied to the
store as far as possible, with the values of the cache; the other edits fail where the copy does. -/
def dcp2MirrorPolicy (x : Runtime ε) (opcode : ℕ) (body : List UInt8) (status : Status) : Status × Runtime ε :=
  let device := masterServiceFindByAddr x.world.state (body.headD 0)
  if opcode = opPolicySet then
    if status = .ok then
      match device with
      | none => (.ok,x)
      | some deviceId => (.ok,(syncDevice x deviceId).2)
    else if status = .malformed ∧ body.length = 2 ∧ (1 : UInt8) < (body.drop 1).headD 0 then (.unsupported,x)
    else (status,x)
  else if status = .ok ∧ opPolicyRuleAdd ≤ opcode ∧ opcode ≤ opPolicyClear then
    match device with
    | none => (.internal,x)
    | some deviceId => (if (syncPolicy x deviceId).1 then .ok else .internal,(syncPolicy x deviceId).2)
  else (status,x)

/-- `dcp2_handle_policy` for an I2C device. -/
def dcp2HandlePolicy (x : Runtime ε) (opcode : ℕ) (body : List UInt8) : (Status × List UInt8) × Runtime ε :=
  let ((status,answer),w) := processPolicy x.world opcode body
  let (status,x) := dcp2MirrorPolicy { x with world := w } opcode body status
  ((status,answer),x)

/-! ## The HTTP server -/

/-- `api_handle_i2c_put`. -/
def httpI2cPut (x : Runtime ε) (body : List UInt8) : PutReply × Runtime ε :=
  match apiHandleI2cPut x.store body with
  | .error reply => (reply,x)
  | .ok next => (if (applyConfig x next).1 then .ok else .setFailed,(applyConfig x next).2)

/-! ## All together -/

/-- Everything that may be asked for, through whatever surface. -/
inductive SurfaceOp where
  | service (deviceId : ℕ) (call : RuleCall)
  | read (deviceId : ℕ) (reg : UInt8) (source : EventSource) (timeoutMs : ℕ)
  | write (deviceId : ℕ) (reg value : UInt8) (source : EventSource) (timeoutMs : ℕ)
  | consolePolicy (token : Word) (words : List Word)
  | consoleAddress (token text : Word)
  | consoleWrite (token reg value : Word)
  | dcp2Policy (opcode : ℕ) (body : List UInt8)
  | httpPut (body : List UInt8)

/-- What an operation answers. -/
inductive SurfaceReply where
  | status (status : Status)
  | value (status : Status) (value : UInt8)
  | response (status : Status) (body : List UInt8)
  | http (reply : PutReply)

def Runtime.step (P : I2cPlatform ε) (x : Runtime ε) : SurfaceOp → Runtime ε × SurfaceReply
  | .service deviceId call => ({ x with world := (call.run x.world deviceId).2 },.status (call.run x.world deviceId).1)
  | .read deviceId reg source timeoutMs =>
    let ((status,value),w) := masterServiceReadFrom P x.world deviceId reg source timeoutMs
    ({ x with world := w },.value status value)
  | .write deviceId reg value source timeoutMs =>
    let (status,w) := masterServiceWrite P x.world deviceId reg value source timeoutMs
    ({ x with world := w },.status status)
  | .consolePolicy token words => ((consolePolicy x token words).2,.status (consolePolicy x token words).1)
  | .consoleAddress token text => ((consoleAddress x token text).2,.status (consoleAddress x token text).1)
  | .consoleWrite token reg value => ((consoleWrite P x token reg value).2,.status (consoleWrite P x token reg value).1)
  | .dcp2Policy opcode body =>
    let ((status,answer),x) := dcp2HandlePolicy x opcode body
    (x,.response status answer)
  | .httpPut body => ((httpI2cPut x body).2,.http (httpI2cPut x body).1)

end Bvstk.Surfaces
