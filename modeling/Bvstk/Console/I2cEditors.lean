import Bvstk.Config.I2cConfig
import Bvstk.Console.Words
import Bvstk.I2c.ConfigAtomicity
import Bvstk.Library.RuleSets

/-! # Editors of I2C rules

The same two lists are edited by the operations of the service, by `edit_rules` and
`cmd_policy` of the FreeRTOS console, and by `policy_edit` of the Neutrino runtime. The
consoles edit a copy of the configuration, which is applied afterwards.
-/
namespace Bvstk.Console
open Config I2c RuleSets

def sideOf : PolicyMode → Side
  | .whitelist => .allow
  | .blacklist => .deny

def modeOf : Side → PolicyMode
  | .allow => .whitelist
  | .deny => .blacklist

@[simp] theorem sideOf_modeOf (side : Side) : sideOf (modeOf side) = side := by cases side <;> rfl
@[simp] theorem modeOf_sideOf (mode : PolicyMode) : modeOf (sideOf mode) = mode := by cases mode <;> rfl

def rulesOn (config : I2cFileConfig) : Side → List I2cRule
  | .allow => config.whitelist
  | .deny => config.blacklist

def setRulesOn (config : I2cFileConfig) (side : Side) (rules : List I2cRule) : I2cFileConfig :=
  match side with
  | .allow => { config with whitelist := rules }
  | .deny => { config with blacklist := rules }

def setMode (config : I2cFileConfig) (mode : Side) : I2cFileConfig := { config with policy := (modeOf mode).code }

/-! ## The FreeRTOS console -/

/-- The words of `edit_rules`. -/
def editRulesWords (config : I2cFileConfig) : List Word → Except Status (Edit I2cRule)
  | [list,action] =>
    match listOf list with
    | none => .error .malformed
    | some list => if sameIgnoringCase action wordClear then .ok (.clear (sideOf list)) else .error .malformed
  | [list,action,reg,value] =>
    match listOf list with
    | none => .error .malformed
    | some list =>
      if !sameIgnoringCase action wordAdd && !sameIgnoringCase action wordDel && !sameIgnoringCase action wordDelete then
        .error .malformed
      else
        match busShellNumber reg (config.regCount - 1) with
        | .error status => .error status
        | .ok reg =>
          match busShellNumber value config.maxValueCode.toNat with
          | .error status => .error status
          | .ok value =>
            let rule : I2cRule := ⟨UInt8.ofNat reg,UInt8.ofNat value⟩
            .ok (if sameIgnoringCase action wordAdd then .add (sideOf list) rule else .remove (sideOf list) rule)
  | _ => .error .malformed

/-- The words of `cmd_policy` that are no query. -/
def cmdPolicyWords (config : I2cFileConfig) (words : List Word) : Except Status (Edit I2cRule) :=
  match words with
  | [word,mode] =>
    if sameIgnoringCase word wordSet then
      match listOf mode with
      | none => .error .malformed
      | some mode => .ok (.setMode (sideOf mode))
    else editRulesWords config words
  | _ => editRulesWords config words

/-- The edit that `edit_rules` or `cmd_policy` makes. Only the first equal rule is deleted. -/
def editRules (config : I2cFileConfig) : Edit I2cRule → Status × I2cFileConfig
  | .add side rule =>
    if rule ∈ rulesOn config side then (.ok,config)
    else if (rulesOn config side).length = i2cRulesMax then (.range,config)
    else (.ok,setRulesOn config side (rulesOn config side ++ [rule]))
  | .remove side rule =>
    if rule ∉ rulesOn config side then (.notFound,config)
    else (.ok,setRulesOn config side ((rulesOn config side).eraseP fun r => decide (r = rule)))
  | .clear side => (.ok,setRulesOn config side [])
  | .setMode mode => (.ok,setMode config mode)

/-- `cmd_policy`, up to the application. -/
def cmdPolicy (config : I2cFileConfig) (words : List Word) : Status × I2cFileConfig :=
  match cmdPolicyWords config words with
  | .error status => (status,config)
  | .ok edit => editRules config edit

/-! ## The Neutrino runtime -/

/-- The words of `policy_edit`; nothing for a query or an error. -/
def policyEditWords (config : I2cFileConfig) : List Word → Option (Edit I2cRule)
  | [word,mode] =>
    if sameIgnoringCase word wordSet then (listOf mode).map fun mode => .setMode (sideOf mode)
    else
      match listOf word with
      | none => none
      | some list => if sameIgnoringCase mode wordClear then some (.clear (sideOf list)) else none
  | [list,action,reg,value] =>
    match listOf list with
    | none => none
    | some list =>
      if sameIgnoringCase action wordClear then none
      else
        match parseNumber reg 255, parseNumber value 255 with
        | some reg, some value =>
          let rule : I2cRule := ⟨UInt8.ofNat reg,UInt8.ofNat value⟩
          if config.regCount ≤ reg ∨ config.maxValueCode.toNat < value then none
          else if sameIgnoringCase action wordAdd then some (.add (sideOf list) rule)
          else if sameIgnoringCase action wordDel || sameIgnoringCase action wordDelete then some (.remove (sideOf list) rule)
          else none
        | _, _ => none
  | _ => none

/-- The edit that `policy_edit` makes; it cannot fail. -/
def policyEditRules (config : I2cFileConfig) : Edit I2cRule → I2cFileConfig
  | .add side rule =>
    if rule ∉ rulesOn config side ∧ (rulesOn config side).length < i2cRulesMax then
      setRulesOn config side (rulesOn config side ++ [rule])
    else config
  | .remove side rule => setRulesOn config side ((rulesOn config side).filter fun r => !decide (r = rule))
  | .clear side => setRulesOn config side []
  | .setMode mode => setMode config mode

/-- `policy_edit`, up to the application. -/
def policyEdit (config : I2cFileConfig) (words : List Word) : Option I2cFileConfig :=
  (policyEditWords config words).map (policyEditRules config)

/-! ## The service -/

/-- The operation of the service for an edit. -/
def serviceEdit {ε : Type} (deviceId : ℕ) (w : I2cWorld ε) : Edit I2cRule → Status × I2cWorld ε
  | .add .allow rule => masterServiceRuleAllow w deviceId rule.reg rule.val
  | .add .deny rule => masterServiceRuleDeny w deviceId rule.reg rule.val
  | .remove side rule => masterServiceRuleRemove w deviceId (modeOf side).code rule.reg rule.val
  | .clear side => masterServiceRuleClearList w deviceId (modeOf side).code
  | .setMode mode => masterServiceSetPolicy w deviceId (modeOf mode).code

/-! ## What they stand for -/

abbrev I2cRequest := UInt8 × UInt8

def I2cHit (rule : I2cRule) (x : I2cRequest) : Prop := rule = ⟨x.1,x.2⟩

/-- The requests a device has registers and values for. -/
def deviceRange (regCount : ℕ) (maxValueCode : UInt8) : Set I2cRequest := {x | x.1.toNat < regCount ∧ x.2 ≤ maxValueCode}

def entryPolicy (entry : I2cPolicyEntry) (device : I2cDevice) : Policy I2cRule I2cRequest where
  mode := sideOf entry.mode
  rules side := {r | r ∈ match side with | .allow => entry.whitelist | .deny => entry.blacklist}
  range := deviceRange device.regCount device.maxValueCode

/-- The policy in force for a device. -/
def livePolicy (s : I2cState) (deviceId : ℕ) : Policy I2cRule I2cRequest :=
  match s.policy.items[deviceId]?, s.devices.items[deviceId]? with
  | some entry, some device => entryPolicy entry device
  | _, _ => ⟨.allow,fun _ => ∅,∅⟩

/-- The policy that a configuration asks for. -/
def configPolicy (config : I2cFileConfig) : Policy I2cRule I2cRequest where
  mode := match PolicyMode.ofCode config.policy with | some mode => sideOf mode | none => .allow
  rules side := {r | r ∈ rulesOn config side}
  range := deviceRange config.regCount config.maxValueCode

def i2cServiceEditor (ε : Type) (deviceId : ℕ) : Editor (I2cWorld ε) (Edit I2cRule) I2cRule I2cRequest where
  step w edit := ((serviceEdit deviceId w edit).2,decide ((serviceEdit deviceId w edit).1 = .ok))
  asks _ edit := some edit
  policy w := livePolicy w.state deviceId

def i2cConsoleEditor : Editor I2cFileConfig (List Word) I2cRule I2cRequest where
  step config words := ((cmdPolicy config words).2,decide ((cmdPolicy config words).1 = .ok))
  asks config words := (cmdPolicyWords config words).toOption
  policy := configPolicy

def neutrinoEditor : Editor I2cFileConfig (List Word) I2cRule I2cRequest where
  step config words := ((policyEdit config words).getD config,(policyEdit config words).isSome)
  asks := policyEditWords
  policy := configPolicy

end Bvstk.Console
