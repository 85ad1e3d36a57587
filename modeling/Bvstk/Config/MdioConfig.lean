import Bvstk.Config.ProfileMetadata
import Mathlib.Data.List.Nodup

/-! # Checks and policy of an MDIO configuration

`bvstk_mdio_config_validate` and `bvstk_mdio_policy_allows`, and the edits the service
makes to the rule lists of a configuration that has passed the check.
-/
namespace Bvstk.Config

/-! ## Validation -/

/-- `safe_name` for a name that may not be empty. -/
def safeName (s : Name) (cap : ℕ) : Bool :=
  s != [] && (s.all fun c => isWord c || c == 46) && decide (s.length < cap) && !hasDotDot s

/-- Registers below the count, none of them twice. -/
def regsCheck (regCount : UInt8) : (seen regs : List UInt8) → Status
  | _, [] => .ok
  | seen, r :: regs =>
    if regCount ≤ r then .range
    else if r ∈ seen then .malformed
    else regsCheck regCount (r :: seen) regs

def rulesCheck (regCount : UInt8) (rules : List MdioRule) : Status :=
  if ∀ r ∈ rules, r.reg < regCount then .ok else .range

/-- The checks before any list is walked. -/
def MdioPhyConfig.Shaped (c : MdioPhyConfig) : Prop :=
  safeName c.name mdioNameMax = true ∧ (c.fileName = [] ∨ devicePathValid c.fileName = true) ∧
    c.phyAddr ≤ 31 ∧ c.regCount ≠ 0 ∧ c.regCount ≤ 32 ∧ PolicyMode.ofCode c.policy ≠ none ∧
    c.whitelist.length ≤ mdioRulesMax ∧ c.blacklist.length ≤ mdioRulesMax ∧
    c.settings.length ≤ mdioSettingsMax ∧ c.autopollRegs.length ≤ mdioAutopollRegsMax ∧
    c.autopollRegDelayMs ≤ 60000 ∧ c.autopollCycleDelayMs ≤ 600000

instance (c : MdioPhyConfig) : Decidable c.Shaped := inferInstanceAs (Decidable (_ ∧ _))

def mdioConfigValidate (c : MdioPhyConfig) : Status :=
  if ¬c.Shaped then .malformed
  else if rulesCheck c.regCount c.whitelist ≠ .ok then rulesCheck c.regCount c.whitelist
  else if rulesCheck c.regCount c.blacklist ≠ .ok then rulesCheck c.regCount c.blacklist
  else if regsCheck c.regCount [] c.autopollRegs ≠ .ok then regsCheck c.regCount [] c.autopollRegs
  else if regsCheck c.regCount [] (c.settings.map (·.reg)) ≠ .ok then
    regsCheck c.regCount [] (c.settings.map (·.reg))
  else metadataValidate c.profile c.regCount.toNat

/-- What a configuration that passed the check is known to be. -/
structure MdioPhyConfig.Valid (c : MdioPhyConfig) : Prop where
  shaped : c.Shaped
  whitelist : ∀ r ∈ c.whitelist, r.reg < c.regCount
  blacklist : ∀ r ∈ c.blacklist, r.reg < c.regCount
  autopoll : regsCheck c.regCount [] c.autopollRegs = .ok
  settings : regsCheck c.regCount [] (c.settings.map (·.reg)) = .ok
  profile : metadataValidate c.profile c.regCount.toNat = .ok

theorem regsCheck_below {regCount : UInt8} {seen regs : List UInt8} (h : regsCheck regCount seen regs = .ok) :
    ∀ r ∈ regs, r < regCount := by
  induction regs generalizing seen with
  | nil => exact fun _ hr => nomatch hr
  | cons x regs ih =>
    unfold regsCheck at h
    split_ifs at h with hcount hseen
    intro r hr
    rcases List.mem_cons.mp hr with rfl | hr
    · exact UInt8.not_le.mp hcount
    · exact ih h r hr

theorem rulesCheck_eq_ok {regCount : UInt8} {rules : List MdioRule} :
    rulesCheck regCount rules = .ok ↔ ∀ r ∈ rules, r.reg < regCount := by
  unfold rulesCheck
  split
  · rename_i h
    exact ⟨fun _ => h,fun _ => rfl⟩
  · rename_i h
    exact ⟨fun hrange => (nomatch hrange),fun hall => absurd hall h⟩

theorem mdioConfigValidate_eq_ok {c : MdioPhyConfig} : mdioConfigValidate c = .ok ↔ c.Valid := by
  unfold mdioConfigValidate
  constructor
  · intro h
    split at h
    · cases h
    rename_i hshaped
    split at h
    · contradiction
    rename_i hwhitelist
    split at h
    · contradiction
    rename_i hblacklist
    split at h
    · contradiction
    rename_i hautopoll
    split at h
    · contradiction
    rename_i hsettings
    exact ⟨not_not.mp hshaped,rulesCheck_eq_ok.mp (not_not.mp hwhitelist),
      rulesCheck_eq_ok.mp (not_not.mp hblacklist),not_not.mp hautopoll,not_not.mp hsettings,h⟩
  · intro h
    simp only [h.shaped, rulesCheck_eq_ok.mpr h.whitelist, rulesCheck_eq_ok.mpr h.blacklist, h.autopoll,
      h.settings, h.profile, not_true, ne_eq, if_false]

/-! ## Policy -/

def MdioRule.matches (r : MdioRule) (reg : UInt8) (value : UInt16) : Bool :=
  r.reg == reg && value &&& r.mask == r.val &&& r.mask

def mdioPolicyAllows (c : MdioPhyConfig) (reg : UInt8) (value : UInt16) : Bool :=
  if c.regCount ≤ reg ∨ mdioRulesMax < c.whitelist.length ∨ mdioRulesMax < c.blacklist.length then false
  else
    match PolicyMode.ofCode c.policy with
    | none => false
    | some .whitelist => c.whitelist.any fun r => r.matches reg value
    | some .blacklist => !c.blacklist.any fun r => r.matches reg value

/-- `policy_rule_equal`: equal as rules, whatever the bits outside the mask. -/
def MdioRule.same (r : MdioRule) (reg : UInt8) (value mask : UInt16) : Bool :=
  r.reg == reg && r.mask == mask && r.val &&& mask == value &&& mask

theorem lt_of_allows {c : MdioPhyConfig} {reg : UInt8} {value : UInt16} (h : mdioPolicyAllows c reg value = true) :
    reg < c.regCount := by
  unfold mdioPolicyAllows at h
  split at h
  · cases h
  · rename_i hin
    exact UInt8.not_le.mp fun hle => hin (Or.inl hle)

/-! ## Edits -/

def MdioPhyConfig.setPolicy (c : MdioPhyConfig) (mode : PolicyMode) : MdioPhyConfig :=
  { c with policy := match mode with | .whitelist => 0 | .blacklist => 1 }

/-- The rule list that a selector names. -/
def MdioPhyConfig.rules (c : MdioPhyConfig) : PolicyMode → List MdioRule
  | .whitelist => c.whitelist
  | .blacklist => c.blacklist

def MdioPhyConfig.setRules (c : MdioPhyConfig) (list : PolicyMode) (rules : List MdioRule) : MdioPhyConfig :=
  match list with
  | .whitelist => { c with whitelist := rules }
  | .blacklist => { c with blacklist := rules }

@[simp] theorem setPolicy_phyAddr (c : MdioPhyConfig) (mode : PolicyMode) : (c.setPolicy mode).phyAddr = c.phyAddr :=
  rfl

@[simp] theorem setRules_phyAddr (c : MdioPhyConfig) (list : PolicyMode) (rules : List MdioRule) :
    (c.setRules list rules).phyAddr = c.phyAddr := by
  cases list with
  | whitelist => rfl
  | blacklist => rfl

theorem MdioPhyConfig.Valid.setPolicy {c : MdioPhyConfig} (h : c.Valid) (mode : PolicyMode) :
    (c.setPolicy mode).Valid where
  shaped := by
    obtain ⟨hname,hfile,hphy,hzero,hcount,-,hrest⟩ := h.shaped
    refine ⟨hname,hfile,hphy,hzero,hcount,?_,hrest⟩
    cases mode with
    | whitelist => exact Option.some_ne_none _
    | blacklist => exact Option.some_ne_none _
  whitelist := h.whitelist
  blacklist := h.blacklist
  autopoll := h.autopoll
  settings := h.settings
  profile := h.profile

theorem MdioPhyConfig.Valid.setRules {c : MdioPhyConfig} (h : c.Valid) (list : PolicyMode) {rules : List MdioRule}
    (hlength : rules.length ≤ mdioRulesMax) (hrules : ∀ r ∈ rules, r.reg < c.regCount) :
    (c.setRules list rules).Valid := by
  obtain ⟨hname,hfile,hphy,hzero,hcount,hpolicy,hwhite,hblack,hrest⟩ := h.shaped
  cases list with
  | whitelist =>
    exact ⟨⟨hname,hfile,hphy,hzero,hcount,hpolicy,hlength,hblack,hrest⟩,hrules,h.blacklist,h.autopoll,h.settings,
      h.profile⟩
  | blacklist =>
    exact ⟨⟨hname,hfile,hphy,hzero,hcount,hpolicy,hwhite,hlength,hrest⟩,h.whitelist,hrules,h.autopoll,h.settings,
      h.profile⟩

theorem MdioPhyConfig.Valid.rules_length {c : MdioPhyConfig} (h : c.Valid) (list : PolicyMode) :
    (c.rules list).length ≤ mdioRulesMax := by
  obtain ⟨-,-,-,-,-,-,hwhite,hblack,-⟩ := h.shaped
  cases list with
  | whitelist => exact hwhite
  | blacklist => exact hblack

theorem MdioPhyConfig.Valid.rules_reg {c : MdioPhyConfig} (h : c.Valid) (list : PolicyMode) :
    ∀ r ∈ c.rules list, r.reg < c.regCount := by
  cases list with
  | whitelist => exact h.whitelist
  | blacklist => exact h.blacklist

end Bvstk.Config
