import Bvstk.Config.ProfileParse

/-! # Writing profiles

`format` of `bvstk_device_profile.c`: the calls of `append` and `quoted`, in their order, on a
buffer that may be too small.
-/
namespace Bvstk.Config
open I2cJson (decimal)

namespace Profile

/-! ## The writer -/

/-- `writer_t`. -/
structure Writer where
  cap : ℕ
  out : Bytes
  failed : Bool

/-- `append`; one byte of the buffer is for the NUL. -/
def Writer.append (w : Writer) (s : Bytes) : Writer :=
  if w.failed = true then w
  else if w.cap - w.out.length ≤ s.length then { w with failed := true }
  else { w with out := w.out ++ s }

/-- A character between quotes. -/
def escape (c : UInt8) : Bytes := if c = 34 ∨ c = 92 then [92,c] else [c]

/-- The loop of `quoted`. -/
def Writer.quotedChars (w : Writer) : Name → Writer
  | [] => w.append [34]
  | c :: s => if c < 32 ∨ c = 127 then { w with failed := true } else (w.append (escape c)).quotedChars s

/-- One call, of `append` or `quoted`. -/
inductive Output where
  | text (s : Bytes) | quoted (s : Name)

def Writer.put (w : Writer) : Output → Writer
  | .text s => w.append s
  | .quoted s => (w.append [34]).quotedChars s

/-! ## Numbers -/

/-- `%x` and `%X` with a width and zeros in front. -/
def hexPadded (upper : Bool) (digits n : ℕ) : Bytes :=
  let ds := (Nat.toDigits 16 n).map fun c => UInt8.ofNat (if upper = true then c.toUpper else c).toNat
  List.replicate (digits - ds.length) 48 ++ ds

/-- `0x%0*X`. -/
def hexText (digits n : ℕ) : Bytes := 48 :: 120 :: hexPadded true digits n

/-- `resource_id`. -/
def resourceId (p : ProfileMetadata) (reg : ℕ) : Name :=
  if p.version = 2 then textAt p.ids (p.idOffset reg) else I2cJson.text "reg_" ++ hexPadded false 2 reg

/-! ## Lists -/

/-- The items of a list, each with what stands in front of it. -/
def listed {α : Type} (item : Bytes → α → List Output) : List α → List Output
  | [] => []
  | x :: xs => item [] x ++ xs.flatMap (item (I2cJson.text ", "))

def ruleOutput (mdio : Bool) (p : ProfileMetadata) (separator : Bytes) (r : PolicyRule) : List Output :=
  [.text (separator ++ I2cJson.text "\x7b\"resource\": "),.quoted (resourceId p r.reg),
    .text (I2cJson.text ", \"match\": \x7b\"value\": \"" ++ hexText (width mdio / 4) r.val ++ I2cJson.text "\", \"mask\": \"" ++
      hexText (width mdio / 4) r.mask ++ I2cJson.text "\"\x7d\x7d")]

def seedOutput (mdio : Bool) (p : ProfileMetadata) (separator : Bytes) (s : Seed) : List Output :=
  [.text (separator ++ I2cJson.text "\x7b\"resource\": "),.quoted (resourceId p s.reg),
    .text (I2cJson.text ", \"value\": \"" ++ hexText (width mdio / 4) s.val ++ I2cJson.text "\"\x7d")]

def resourceOutput (p : ProfileMetadata) (count i : ℕ) : List Output :=
  [.text (I2cJson.text "    \x7b\"id\": "),.quoted (resourceId p i),
    .text (I2cJson.text ", \"kind\": \"register\", \"address\": \"" ++ hexText 2 i ++ I2cJson.text "\"\x7d" ++
      (if i + 1 = count then [] else I2cJson.text ",") ++ I2cJson.text "\n")]

/-- The last value for each register. -/
def lastSeeds : List Seed → List Seed
  | [] => []
  | s :: seeds => if ∃ x ∈ seeds, x.reg = s.reg then lastSeeds seeds else s :: lastSeeds seeds

/-- What is written of the settings; those of a PHY have no two for one register. -/
def writtenSeeds (mdio : Bool) (seeds : List Seed) : List Seed := if mdio = true then seeds else lastSeeds seeds

/-! ## The document -/

/-- A member that is left out when it is empty. -/
def memberUnlessEmpty (s : Name) (key : Bytes) : List Output := if s = [] then [] else [.text key,.quoted s]

def modeWord (mode : PolicyMode) : Bytes :=
  match mode with
  | .whitelist => I2cJson.text "whitelist"
  | .blacklist => I2cJson.text "blacklist"

/-- The list that the mode applies, and the other one. -/
def DeviceProfile.active (p : DeviceProfile) : List PolicyRule :=
  match p.policy with
  | .whitelist => p.whitelist
  | .blacklist => p.blacklist

def DeviceProfile.inactive (p : DeviceProfile) : List PolicyRule :=
  match p.policy with
  | .whitelist => p.blacklist
  | .blacklist => p.whitelist

def boolText (b : Bool) : Bytes := I2cJson.text (if b = true then "true" else "false")

def deviceOutput (mdio : Bool) (p : DeviceProfile) : List Output :=
  [.text (I2cJson.text ",\n  \"device\": \x7b\"model\": "),.quoted (if p.profile.version = 0 then p.name else p.profile.model),
    .text (I2cJson.text ", \"class\": "),
    .quoted (if p.profile.version = 0 then I2cJson.text (if mdio = true then "phy" else "generic") else p.profile.deviceClass)] ++
  memberUnlessEmpty (if p.profile.version = 0 then [] else p.profile.vendor) (I2cJson.text ", \"vendor\": ") ++
  memberUnlessEmpty (if p.profile.version = 0 then [] else p.profile.label) (I2cJson.text ", \"label\": ")

def transportText (mdio : Bool) (p : DeviceProfile) : Bytes :=
  I2cJson.text "\x7d,\n  \"transport\": \x7b\"bus\": \"" ++ I2cJson.text (busName mdio) ++ I2cJson.text "\", \"controller\": \"pl_" ++
    I2cJson.text (busName mdio) ++ I2cJson.text "_0\", \"address\": \"" ++ hexText 2 p.address ++ I2cJson.text "\"" ++
    I2cJson.text (if mdio = true then "" else ", \"address_bits\": 7") ++ I2cJson.text "\x7d,\n"

def protocolOutput (mdio : Bool) (p : DeviceProfile) : List Output :=
  .text (I2cJson.text "  \"protocol\": \x7b\"driver\": \"bvstk_" ++ I2cJson.text (busName mdio) ++
    I2cJson.text "_bridge\", \"options\": \x7b") ::
  if mdio = true then
    .text (I2cJson.text "\"autopoll_enabled\": " ++ boolText p.autopollEnabled ++ I2cJson.text ", \"autopoll_reg_delay_ms\": " ++
      decimal p.autopollRegDelayMs ++ I2cJson.text ", \"autopoll_cycle_delay_ms\": " ++ decimal p.autopollCycleDelayMs ++
      I2cJson.text ", \"autopoll_order\": [") ::
    (listed (fun separator reg => [.text separator,.quoted (resourceId p.profile reg)]) p.autopollRegs ++
      [.text (I2cJson.text "]")])
  else
    [.text (I2cJson.text "\"max_write_value\": \"" ++ hexText 2 p.maxValueCode ++
      I2cJson.text "\", \"capture_cache_on_save\": true")]

def defaultsText (mdio : Bool) : Bytes :=
  I2cJson.text "\x7d\x7d,\n  \"defaults\": \x7b\"register\": \x7b\"width_bits\": " ++ decimal (width mdio) ++
    I2cJson.text ", \"access\": \"rw\", \"write_mask\": \"" ++ hexText (width mdio / 4) (maximum mdio).toNat ++
    I2cJson.text "\", \"cache\": \x7b\"mode\": \"driver\"\x7d, \"verify\": \x7b\"mode\": \"driver\"\x7d\x7d\x7d,\n  \"resources\": [\n"

def policyOutput (mdio : Bool) (p : DeviceProfile) : List Output :=
  .text (I2cJson.text "  ],\n  \"policy\": \x7b\"read\": \x7b\"mode\": \"blacklist\", \"rules\": []\x7d, \"write\": \x7b\"mode\": \"" ++
    modeWord p.policy ++ I2cJson.text "\"") ::
  (.text (I2cJson.text ", \"rules\": [") :: listed (ruleOutput mdio p.profile) (DeviceProfile.active p) ++
    .text (I2cJson.text "]") :: .text (I2cJson.text ", \"inactive_rules\": [") ::
    listed (ruleOutput mdio p.profile) (DeviceProfile.inactive p) ++ [.text (I2cJson.text "]")])

/-- The calls of `format`. -/
def outputs (mdio : Bool) (p : DeviceProfile) : List Output :=
  [.text (I2cJson.text "\x7b\n  \"schema_version\": 2,\n  \"id\": "),.quoted p.name] ++
  memberUnlessEmpty p.profile.registerMap (I2cJson.text ",\n  \"register_map\": ") ++
  memberUnlessEmpty p.profile.view (I2cJson.text ",\n  \"view\": ") ++ deviceOutput mdio p ++
  [.text (transportText mdio p)] ++ protocolOutput mdio p ++ [.text (defaultsText mdio)] ++
  (List.range p.regCount).flatMap (resourceOutput p.profile p.regCount) ++ policyOutput mdio p ++
  [.text (I2cJson.text "\x7d\x7d,\n  \"settings\": \x7b\"desired\": [], \"cache_seed\": [")] ++
  listed (seedOutput mdio p.profile) (writtenSeeds mdio p.settings) ++
  [.text (I2cJson.text ("], \"apply_on_startup\": false\x7d,\n  \"observability\": \x7b\"telemetry\": true, " ++
    "\"events\": true\x7d\n\x7d\n"))]

/-- `format`, into a buffer of `cap` bytes. -/
def format (mdio : Bool) (p : DeviceProfile) (cap : ℕ) : Except Status Bytes :=
  if cap = 0 then .error .malformed
  else if idValid p.name = false then .error .unsupported
  else
    let w := (outputs mdio p).foldl Writer.put ⟨cap,[],false⟩
    if w.failed = true ∨ profileJsonMax < w.out.length then .error .range else .ok w.out

end Profile

/-! ## The two sources -/

/-- The mode that is written: a policy that is no blacklist is a whitelist. -/
def writtenMode (policy : ℕ) : PolicyMode := if policy = PolicyMode.blacklist.code then .blacklist else .whitelist

def I2cFileConfig.deviceProfile (c : I2cFileConfig) : DeviceProfile where
  name := c.name
  address := c.addr7b.toNat
  regCount := c.regCount
  maxValueCode := c.maxValueCode.toNat
  policy := writtenMode c.policy
  autopollEnabled := false
  autopollRegs := []
  autopollRegDelayMs := 0
  autopollCycleDelayMs := 0
  whitelist := c.whitelist.map fun r => ⟨r.reg.toNat,r.val.toNat,255⟩
  blacklist := c.blacklist.map fun r => ⟨r.reg.toNat,r.val.toNat,255⟩
  settings := c.settings.map fun s => ⟨s.reg.toNat,s.val.toNat⟩
  profile := c.profile

def MdioPhyConfig.deviceProfile (c : MdioPhyConfig) : DeviceProfile where
  name := c.name
  address := c.phyAddr.toNat
  regCount := c.regCount.toNat
  maxValueCode := 0
  policy := writtenMode c.policy
  autopollEnabled := c.autopollEnabled
  autopollRegs := c.autopollRegs.map UInt8.toNat
  autopollRegDelayMs := c.autopollRegDelayMs.toNat
  autopollCycleDelayMs := c.autopollCycleDelayMs.toNat
  whitelist := c.whitelist.map fun r => ⟨r.reg.toNat,r.val.toNat,r.mask.toNat⟩
  blacklist := c.blacklist.map fun r => ⟨r.reg.toNat,r.val.toNat,r.mask.toNat⟩
  settings := c.settings.map fun s => ⟨s.reg.toNat,s.val.toNat⟩
  profile := c.profile

/-- `bvstk_device_profile_format_i2c`. -/
def formatI2cProfile (c : I2cFileConfig) (cap : ℕ) : Except Status Bytes :=
  if i2cConfigValidate c = .ok then Profile.format false c.deviceProfile cap else .error (i2cConfigValidate c)

/-- `bvstk_device_profile_format_mdio`. -/
def formatMdioProfile (c : MdioPhyConfig) (cap : ℕ) : Except Status Bytes :=
  if mdioConfigValidate c = .ok then Profile.format true c.deviceProfile cap else .error (mdioConfigValidate c)

end Bvstk.Config
