import Bvstk.Config.ProfileMetadata

/-! # Checks on an I2C configuration

The whole `i2c_device_config_t` as device files and the configuration store have it, and
`bvstk_i2c_config_validate`.
-/
namespace Bvstk.Config

def i2cSettingsMax : ℕ := 256
def i2cFileNameMax : ℕ := 48

/-- `i2c_device_config_t`; the settings are the values the cache starts with. -/
structure I2cFileConfig extends I2cDeviceConfig where
  fileName : Name
  settings : List I2cRule

/-- The number of a mode. -/
def PolicyMode.code : PolicyMode → ℕ
  | .whitelist => 0
  | .blacklist => 1

@[simp] theorem ofCode_code (mode : PolicyMode) : PolicyMode.ofCode mode.code = some mode := by
  cases mode with
  | whitelist => rfl
  | blacklist => rfl

/-- Rules for registers and values that the device has. -/
def i2cRulesCheck (regCount : ℕ) (maxValueCode : UInt8) (rules : List I2cRule) : Status :=
  if ∀ r ∈ rules, r.reg.toNat < regCount ∧ r.val ≤ maxValueCode then .ok else .range

def i2cSettingsCheck (regCount : ℕ) (settings : List I2cRule) : Status :=
  if ∀ s ∈ settings, s.reg.toNat < regCount then .ok else .range

/-- The checks before any list is walked. -/
def I2cFileConfig.Shaped (c : I2cFileConfig) : Prop :=
  c.name ≠ [] ∧ c.name.length < i2cNameMax ∧ c.addr7b ≤ 0x7F ∧ c.regCount ≠ 0 ∧ c.regCount ≤ i2cMaxRegCount ∧
    c.maxValueCode ≤ 64 ∧ PolicyMode.ofCode c.policy ≠ none ∧ c.whitelist.length ≤ i2cRulesMax ∧
    c.blacklist.length ≤ i2cRulesMax ∧ c.settings.length ≤ i2cSettingsMax

instance I2cFileConfig.decidableShaped (c : I2cFileConfig) : Decidable c.Shaped := inferInstanceAs (Decidable (_ ∧ _))

def i2cConfigValidate (c : I2cFileConfig) : Status :=
  if ¬c.Shaped then .malformed
  else if i2cRulesCheck c.regCount c.maxValueCode c.whitelist ≠ .ok then .range
  else if i2cRulesCheck c.regCount c.maxValueCode c.blacklist ≠ .ok then .range
  else if i2cSettingsCheck c.regCount c.settings ≠ .ok then .range
  else metadataValidate c.profile c.regCount

/-- What a configuration that passed the check is known to be. -/
structure I2cFileConfig.Valid (c : I2cFileConfig) : Prop where
  shaped : c.Shaped
  whitelist : ∀ r ∈ c.whitelist, r.reg.toNat < c.regCount ∧ r.val ≤ c.maxValueCode
  blacklist : ∀ r ∈ c.blacklist, r.reg.toNat < c.regCount ∧ r.val ≤ c.maxValueCode
  settings : ∀ s ∈ c.settings, s.reg.toNat < c.regCount
  profile : metadataValidate c.profile c.regCount = .ok

theorem i2cRulesCheck_eq_ok {regCount : ℕ} {maxValueCode : UInt8} {rules : List I2cRule} :
    i2cRulesCheck regCount maxValueCode rules = .ok ↔ ∀ r ∈ rules, r.reg.toNat < regCount ∧ r.val ≤ maxValueCode := by
  simp [i2cRulesCheck]

theorem i2cSettingsCheck_eq_ok {regCount : ℕ} {settings : List I2cRule} :
    i2cSettingsCheck regCount settings = .ok ↔ ∀ s ∈ settings, s.reg.toNat < regCount := by
  simp [i2cSettingsCheck]

theorem i2cConfigValidate_eq_ok {c : I2cFileConfig} : i2cConfigValidate c = .ok ↔ c.Valid := by
  unfold i2cConfigValidate
  constructor
  · intro h
    split_ifs at h with hshaped hwhitelist hblacklist hsettings
    exact ⟨hshaped,i2cRulesCheck_eq_ok.mp (not_not.mp hwhitelist),i2cRulesCheck_eq_ok.mp (not_not.mp hblacklist),
      i2cSettingsCheck_eq_ok.mp (not_not.mp hsettings),h⟩
  · intro h
    simp only [h.shaped, i2cRulesCheck_eq_ok.mpr h.whitelist, i2cRulesCheck_eq_ok.mpr h.blacklist,
      i2cSettingsCheck_eq_ok.mpr h.settings, h.profile, not_true, ne_eq, if_false]

end Bvstk.Config
