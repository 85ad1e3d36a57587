import Bvstk.Mdio.Service
import Bvstk.Surfaces.ControlSurfaces

/-! # Policy requests

`bvstk_dcp2_process_policy` serves two buses. They differ in the size of a rule, the addresses
they have, and the service that is asked.
-/
namespace Bvstk.Dcp2
open Config I2c Mdio Surfaces Wire

/-! ## The buses -/

/-- The policy of a device, as a service tells it. -/
structure PolicyView (ρ : Type) where
  mode : ℕ
  whitelist : List ρ
  blacklist : List ρ
  deriving DecidableEq, Repr

/-- What depends on the bus: `is_i2c ? … : …`. -/
structure PolicyBus (ω ρ : Type) where
  ruleSize : ℕ
  maxAddress : UInt8
  rulesMax : ℕ
  /-- The rule at the end of a body, and how it is written in an answer. -/
  rule : List UInt8 → ρ
  bytes : ρ → List UInt8
  findDevice : ω → (address : UInt8) → Except Status ℕ × ω
  getPolicy : ω → (deviceId : ℕ) → Except Status (PolicyView ρ) × ω
  setPolicy : ω → (deviceId mode : ℕ) → Status × ω
  clearList : ω → (deviceId list : ℕ) → Status × ω
  removeRule : ω → (deviceId list : ℕ) → ρ → Status × ω
  addRule : ω → (deviceId list : ℕ) → ρ → Status × ω

def i2cRuleBytes (r : I2cRule) : List UInt8 := [r.reg,r.val]

def i2cBus {ε : Type} : PolicyBus (I2cWorld ε) I2cRule where
  ruleSize := 2
  maxAddress := 127
  rulesMax := i2cRulesMax
  rule body := ⟨body.getD 2 0,body.getD 3 0⟩
  bytes := i2cRuleBytes
  findDevice w address :=
    (match masterServiceFindByAddr w.state address with
    | none => .error .notFound
    | some deviceId => .ok deviceId,w)
  getPolicy w deviceId :=
    (match masterServiceGetPolicy w.state deviceId with
    | none => .error .notFound
    | some p => .ok ⟨p.mode.code,p.whitelist,p.blacklist⟩,w)
  setPolicy := masterServiceSetPolicy
  clearList := masterServiceRuleClearList
  removeRule w deviceId list r := masterServiceRuleRemove w deviceId list r.reg r.val
  addRule w deviceId list r :=
    if list = 0 then masterServiceRuleAllow w deviceId r.reg r.val else masterServiceRuleDeny w deviceId r.reg r.val

def mdioRuleBytes (r : MdioRule) : List UInt8 := r.reg :: beBytes 2 r.val.toNat ++ beBytes 2 r.mask.toNat

def mdioBus {ε : Type} (P : MdioPlatform ε) : PolicyBus (MdioWorld ε) MdioRule where
  ruleSize := 5
  maxAddress := 31
  rulesMax := mdioRulesMax
  rule body :=
    ⟨body.getD 2 0,UInt16.ofNat (readBE ((body.drop 3).take 2)),UInt16.ofNat (readBE ((body.drop 5).take 2))⟩
  bytes := mdioRuleBytes
  findDevice := serviceFindByPhy P
  getPolicy w deviceId :=
    match serviceGetPolicy P w deviceId with
    | (.error status,w) => (.error status,w)
    | (.ok p,w) => (.ok ⟨p.mode,p.whitelist,p.blacklist⟩,w)
  setPolicy := serviceSetPolicy P
  clearList := serviceRuleClearList P
  removeRule w deviceId list r := serviceRuleRemove P w deviceId list r.reg r.val r.mask
  addRule w deviceId list r := serviceRuleAdd P w deviceId list r.reg r.val r.mask

/-! ## The handler -/

section
variable {ω ρ : Type} (B : PolicyBus ω ρ)

/-- The body of an answer. -/
def policyAnswer (p : PolicyView ρ) : List UInt8 :=
  UInt8.ofNat p.mode :: beBytes 2 p.whitelist.length ++ beBytes 2 p.blacklist.length ++
    (p.whitelist ++ p.blacklist).flatMap B.bytes

/-- `expected`. -/
def PolicyBus.bodySize (opcode : ℕ) : ℕ :=
  if opcode = opPolicyGet then 1
  else if opcode = opPolicyRuleAdd ∨ opcode = opPolicyRuleDelete then 2 + B.ruleSize else 2

/-- `POLICY_GET`. -/
def answerPolicy (capacity : ℕ) (w : ω) (deviceId : ℕ) : (Status × List UInt8) × ω :=
  match B.getPolicy w deviceId with
  | (.error status,w) => ((policyStatus status,[]),w)
  | (.ok p,w) =>
    if B.rulesMax < p.whitelist.length ∨ B.rulesMax < p.blacklist.length then ((.range,[]),w)
    else
      let n := 5 + (p.whitelist.length + p.blacklist.length) * B.ruleSize
      if capacity < n ∨ maxPayload - 6 < n then ((.range,[]),w) else ((.ok,policyAnswer B p),w)

/-- The call that an opcode other than `POLICY_GET` stands for. -/
def editPolicy (opcode : ℕ) (body : List UInt8) (w : ω) (deviceId : ℕ) : Status × ω :=
  let list := (body.getD 1 0).toNat
  if opcode = opPolicySet then B.setPolicy w deviceId list
  else if opcode = opPolicyClear then B.clearList w deviceId list
  else if opcode = opPolicyRuleDelete then B.removeRule w deviceId list (B.rule body)
  else B.addRule w deviceId list (B.rule body)

/-- `bvstk_dcp2_process_policy`, with the service of the bus if there is one. -/
def processPolicy (opcode : ℕ) (body : List UInt8) (capacity : ℕ) (service : Option ω) :
    (Status × List UInt8) × Option ω :=
  if opcode < opPolicySet ∨ opPolicyClear < opcode then ((.unsupported,[]),service)
  else if body.length ≠ B.bodySize opcode then ((.malformed,[]),service)
  else if opcode ≠ opPolicyGet ∧ 1 < body.getD 1 0 then ((.malformed,[]),service)
  else if B.maxAddress < body.getD 0 0 then ((.range,[]),service)
  else
    match service with
    | none => ((policyStatus .notReady,[]),none)
    | some w =>
      match B.findDevice w (body.getD 0 0) with
      | (.error status,w) => ((policyStatus status,[]),some w)
      | (.ok deviceId,w) =>
        if opcode = opPolicyGet then ((answerPolicy B capacity w deviceId).1,some (answerPolicy B capacity w deviceId).2)
        else ((policyStatus (editPolicy B opcode body w deviceId).1,[]),some (editPolicy B opcode body w deviceId).2)

end

end Bvstk.Dcp2
