import Bvstk.Base.Status
import Bvstk.Config.Model
import Mathlib.Data.List.Basic

/-! # I2C devices and their write policies

`bvstk_i2c_devices.c` and `bvstk_i2c_policy.c`: the table of bus devices, and for each
of them a mode and two lists of exact rules.
-/
namespace Bvstk.I2c
open Config

/-! ## Devices -/

structure I2cDevice where
  name : Name
  addr7b : UInt8
  regCount : ℕ
  maxValueCode : UInt8
  deriving DecidableEq, Repr

/-- `item_valid`. -/
def I2cDevice.Valid (d : I2cDevice) : Prop :=
  d.name ≠ [] ∧ d.addr7b ≤ 0x7F ∧ d.regCount ≠ 0 ∧ d.regCount ≤ i2cMaxRegCount

instance (d : I2cDevice) : Decidable d.Valid := inferInstanceAs (Decidable (_ ∧ _))

/-- An initialised table holds valid devices only. -/
structure I2cDevices where
  items : List I2cDevice
  fits : items.length ≤ i2cMaxDevices
  valid : ∀ d ∈ items, d.Valid

def I2cDevices.count (ds : I2cDevices) : ℕ := ds.items.length

def devicesInit (items : List I2cDevice) : Except Status I2cDevices :=
  if h : items.length ≤ i2cMaxDevices ∧ ∀ d ∈ items, d.Valid then .ok ⟨items,h.1,h.2⟩
  else .error .malformed

def devicesInitFromConfig (configs : List I2cDeviceConfig) : Except Status I2cDevices :=
  devicesInit (configs.map fun c => ⟨c.name.take (i2cNameMax - 1),c.addr7b,c.regCount,c.maxValueCode⟩)

def devicesGet (ds : I2cDevices) (deviceId : ℕ) : Except Status I2cDevice :=
  match ds.items[deviceId]? with
  | none => .error .notFound
  | some d => .ok d

theorem forall_mem_set {α : Type} {P : α → Prop} {items : List α} (h : ∀ d ∈ items, P d) {i : ℕ} {item : α}
    (hitem : P item) : ∀ d ∈ items.set i item, P d := by
  intro d hd
  rcases List.mem_or_eq_of_mem_set hd with hd | rfl
  · exact h d hd
  · exact hitem

def I2cDevices.set (ds : I2cDevices) (deviceId : ℕ) (item : I2cDevice) (h : item.Valid) : I2cDevices where
  items := ds.items.set deviceId item
  fits := by simpa using ds.fits
  valid := forall_mem_set ds.valid h

def devicesSet (ds : I2cDevices) (deviceId : ℕ) (item : I2cDevice) : Status × I2cDevices :=
  if ds.count ≤ deviceId then (.notFound,ds)
  else if h : item.Valid then (.ok,ds.set deviceId item h)
  else (.malformed,ds)

/-! ## Policies -/

structure I2cPolicyEntry where
  mode : PolicyMode
  whitelist : List I2cRule
  blacklist : List I2cRule
  deriving DecidableEq, Repr

structure I2cPolicy where
  items : List I2cPolicyEntry

def ruleContains (rules : List I2cRule) (reg value : UInt8) : Bool :=
  rules.any fun r => r.reg == reg && r.val == value

def ruleValid (device : I2cDevice) (reg value : UInt8) : Bool :=
  decide (reg.toNat < device.regCount ∧ value ≤ device.maxValueCode)

def addRule (rules : List I2cRule) (reg value : UInt8) : Status × List I2cRule :=
  if ruleContains rules reg value then (.ok,rules)
  else if i2cRulesMax ≤ rules.length then (.range,rules)
  else (.ok,rules ++ [⟨reg,value⟩])

def removeRule (rules : List I2cRule) (reg value : UInt8) : List I2cRule :=
  rules.filter fun r => !(r.reg == reg && r.val == value)

/-- The entry a configuration asks for, if it is a possible one. -/
def policyEntryOf (config : I2cDeviceConfig) : Option I2cPolicyEntry :=
  match PolicyMode.ofCode config.policy with
  | none => none
  | some mode =>
    if i2cRulesMax < config.whitelist.length ∨ i2cRulesMax < config.blacklist.length then none
    else some ⟨mode,config.whitelist,config.blacklist⟩

/-- The loop of `bvstk_i2c_policy_init`; it refuses an impossible register count as well. -/
def policyItems : List I2cDeviceConfig → Option (List I2cPolicyEntry)
  | [] => some []
  | config :: configs =>
    if config.regCount = 0 ∨ i2cMaxRegCount < config.regCount then none
    else
      match policyEntryOf config, policyItems configs with
      | some entry, some entries => some (entry :: entries)
      | _, _ => none

def policyInit (configs : List I2cDeviceConfig) : Except Status I2cPolicy :=
  if i2cMaxDevices < configs.length then .error .malformed
  else
    match policyItems configs with
    | none => .error .malformed
    | some items => .ok ⟨items⟩

/-- Applies an edit to the entry of a device, if there is one. -/
def I2cPolicy.edit (p : I2cPolicy) (deviceId : ℕ) (f : I2cPolicyEntry → Status × I2cPolicyEntry) :
    Status × I2cPolicy :=
  match p.items[deviceId]? with
  | none => (.notFound,p)
  | some entry => ((f entry).1,⟨p.items.set deviceId (f entry).2⟩)

def policySetConfig (p : I2cPolicy) (deviceId : ℕ) (config : I2cDeviceConfig) : Status × I2cPolicy :=
  p.edit deviceId fun entry =>
    match policyEntryOf config with
    | none => (.malformed,entry)
    | some entry' => (.ok,entry')

def policySetMode (p : I2cPolicy) (deviceId mode : ℕ) : Status × I2cPolicy :=
  p.edit deviceId fun entry =>
    match PolicyMode.ofCode mode with
    | none => (.malformed,entry)
    | some mode => (.ok,{ entry with mode := mode })

def policyAddAllow (p : I2cPolicy) (deviceId : ℕ) (reg value : UInt8) (device : I2cDevice) : Status × I2cPolicy :=
  p.edit deviceId fun entry =>
    if ruleValid device reg value = false then (.range,entry)
    else ((addRule entry.whitelist reg value).1,{ entry with whitelist := (addRule entry.whitelist reg value).2 })

def policyAddDeny (p : I2cPolicy) (deviceId : ℕ) (reg value : UInt8) (device : I2cDevice) : Status × I2cPolicy :=
  p.edit deviceId fun entry =>
    if ruleValid device reg value = false then (.range,entry)
    else ((addRule entry.blacklist reg value).1,{ entry with blacklist := (addRule entry.blacklist reg value).2 })

def policyRemove (p : I2cPolicy) (deviceId : ℕ) (reg value : UInt8) : Status × I2cPolicy :=
  p.edit deviceId fun entry =>
    (.ok,{ entry with
      whitelist := removeRule entry.whitelist reg value
      blacklist := removeRule entry.blacklist reg value })

def policyRemoveList (p : I2cPolicy) (deviceId list : ℕ) (reg value : UInt8) : Status × I2cPolicy :=
  p.edit deviceId fun entry =>
    match PolicyMode.ofCode list with
    | none => (.malformed,entry)
    | some .whitelist =>
      if ruleContains entry.whitelist reg value = false then (.notFound,entry)
      else (.ok,{ entry with whitelist := removeRule entry.whitelist reg value })
    | some .blacklist =>
      if ruleContains entry.blacklist reg value = false then (.notFound,entry)
      else (.ok,{ entry with blacklist := removeRule entry.blacklist reg value })

def policyClear (p : I2cPolicy) (deviceId list : ℕ) : Status × I2cPolicy :=
  p.edit deviceId fun entry =>
    match PolicyMode.ofCode list with
    | none => (.malformed,entry)
    | some .whitelist => (.ok,{ entry with whitelist := [] })
    | some .blacklist => (.ok,{ entry with blacklist := [] })

def policyPermits (p : I2cPolicy) (deviceId : ℕ) (device : I2cDevice) (reg value : UInt8) : Bool :=
  match p.items[deviceId]? with
  | none => false
  | some entry =>
    if ruleValid device reg value = false then false
    else
      match entry.mode with
      | .whitelist => ruleContains entry.whitelist reg value
      | .blacklist => !ruleContains entry.blacklist reg value

/-! ## What the edits keep -/

theorem ruleContains_iff {rules : List I2cRule} {reg value : UInt8} :
    ruleContains rules reg value = true ↔ (⟨reg,value⟩ : I2cRule) ∈ rules := by
  simp only [ruleContains, List.any_eq_true, Bool.and_eq_true, beq_iff_eq]
  constructor
  · rintro ⟨⟨_,_⟩,hr,rfl,rfl⟩
    exact hr
  · intro hr
    exact ⟨_,hr,rfl,rfl⟩

@[simp] theorem devicesSet_length (ds : I2cDevices) (deviceId : ℕ) (item : I2cDevice) :
    (devicesSet ds deviceId item).2.items.length = ds.items.length := by
  unfold devicesSet
  split
  · rfl
  · split
    · exact List.length_set ..
    · rfl

@[simp] theorem edit_length (p : I2cPolicy) (deviceId : ℕ) (f : I2cPolicyEntry → Status × I2cPolicyEntry) :
    (p.edit deviceId f).2.items.length = p.items.length := by
  unfold I2cPolicy.edit
  split
  · rfl
  · exact List.length_set ..

/-- What a permission means: a rule of the whitelist, or no rule of the blacklist. -/
def I2cPolicyEntry.Permits (entry : I2cPolicyEntry) (reg value : UInt8) : Prop :=
  match entry.mode with
  | .whitelist => (⟨reg,value⟩ : I2cRule) ∈ entry.whitelist
  | .blacklist => (⟨reg,value⟩ : I2cRule) ∉ entry.blacklist

theorem policyPermits_iff {p : I2cPolicy} {deviceId : ℕ} {device : I2cDevice} {reg value : UInt8} :
    policyPermits p deviceId device reg value = true ↔
      reg.toNat < device.regCount ∧ value ≤ device.maxValueCode ∧
        ∃ entry, p.items[deviceId]? = some entry ∧ entry.Permits reg value := by
  unfold policyPermits
  cases p.items[deviceId]? with
  | none => simp
  | some entry =>
    dsimp only
    split
    · rename_i hvalid
      simp only [ruleValid, decide_eq_false_iff_not] at hvalid
      simp only [Bool.false_eq_true, false_iff]
      exact fun hall => hvalid ⟨hall.1,hall.2.1⟩
    · rename_i hvalid
      simp only [ruleValid, decide_eq_false_iff_not, not_not] at hvalid
      simp only [hvalid.1, hvalid.2, true_and, Option.some.injEq, exists_eq_left', I2cPolicyEntry.Permits]
      cases entry.mode with
      | whitelist => exact ruleContains_iff
      | blacklist =>
        rw [Bool.not_eq_true']
        exact Bool.eq_false_iff.trans (not_congr ruleContains_iff)

end Bvstk.I2c
