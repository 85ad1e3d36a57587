import Mathlib.Data.Nat.Notation

/-! # The configuration model

`bvstk_config_model.h`: what a device file says, as the services receive it. Arrays
with a length beside them are lists; names are the bytes before the NUL.
-/
namespace Bvstk.Config

abbrev Name := List UInt8

/-- A valid `i2c_policy_t` or `mdio_policy_t`. -/
inductive PolicyMode where
  | whitelist | blacklist
  deriving DecidableEq, Repr

/-- The mode a number stands for; any other number is refused. -/
def PolicyMode.ofCode : ℕ → Option PolicyMode
  | 0 => some .whitelist
  | 1 => some .blacklist
  | _ => none

/-! ## Profile metadata -/

def profileIdsCap : ℕ := 2048
def registerMapNameMax : ℕ := 64

/-- `bvstk_profile_metadata_t`: what a version 2 profile adds to a device. The table
`ids` holds NUL-terminated identifiers; register `r` has the one at `idOffset r`. -/
structure ProfileMetadata where
  version : UInt8
  vendor : Name
  model : Name
  deviceClass : Name
  label : Name
  registerMap : Name
  view : Name
  idOffset : ℕ → ℕ
  ids : List UInt8

/-- A device without a profile: all zeros. -/
def ProfileMetadata.zero : ProfileMetadata := ⟨0,[],[],[],[],[],[],fun _ => 0,[]⟩

/-! ## I2C -/

def i2cMaxDevices : ℕ := 32
def i2cNameMax : ℕ := 32
def i2cMaxRegCount : ℕ := 256
def i2cRulesMax : ℕ := 256

/-- `i2c_rule_entry_t`. -/
structure I2cRule where
  reg : UInt8
  val : UInt8
  deriving DecidableEq, Repr

/-- The part of `i2c_device_config_t` that the services apply. The policy is a number
because a caller may pass any. -/
structure I2cDeviceConfig where
  name : Name
  addr7b : UInt8
  regCount : ℕ
  maxValueCode : UInt8
  policy : ℕ
  whitelist : List I2cRule
  blacklist : List I2cRule
  profile : ProfileMetadata

/-! ## MDIO -/

def mdioMaxDevices : ℕ := 8
def mdioNameMax : ℕ := 32
def mdioFileNameMax : ℕ := 48
def mdioAutopollRegsMax : ℕ := 32
def mdioRulesMax : ℕ := 64
def mdioSettingsMax : ℕ := 32

/-- `mdio_setting_entry_t`. -/
structure MdioSetting where
  reg : UInt8
  val : UInt16
  deriving DecidableEq, Repr

/-- `mdio_rule_entry_t`: mask `0xffff` matches one value, mask `0` any value of the
register. -/
structure MdioRule where
  reg : UInt8
  val : UInt16
  mask : UInt16
  deriving DecidableEq, Repr

/-- `mdio_phy_config_t`. `settingsSpare` stands for the bytes of the settings array that
are not part of a setting in use; only a whole-array comparison sees them. -/
structure MdioPhyConfig where
  name : Name
  fileName : Name
  phyAddr : UInt8
  regCount : UInt8
  policy : ℕ
  autopollEnabled : Bool
  autopollRegs : List UInt8
  autopollRegDelayMs : UInt32
  autopollCycleDelayMs : UInt32
  whitelist : List MdioRule
  blacklist : List MdioRule
  settings : List MdioSetting
  settingsSpare : List UInt8
  profile : ProfileMetadata

end Bvstk.Config
