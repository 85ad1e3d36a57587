import Bvstk.Config.I2cConfig
import Bvstk.Config.MdioConfig
import Bvstk.Config.ProfileViews

/-! # Profiles of version 2

`parse` of `bvstk_device_profile.c`, for both kinds of device. What it checks and leaves alone
is what the drivers cannot do otherwise: partial masks, effects, refreshes, restricted reads.
-/
namespace Bvstk.Config

/-- A rule of either kind of device; a rule of an I2C device has the mask 255. -/
structure PolicyRule where
  reg : ℕ
  val : ℕ
  mask : ℕ
  deriving DecidableEq, Repr

/-- A value that the cache of either kind of device starts with. -/
structure Seed where
  reg : ℕ
  val : ℕ
  deriving DecidableEq, Repr

/-- What `parse` writes into a configuration of either kind and `format` reads from it. -/
structure DeviceProfile where
  name : Name
  address : ℕ
  regCount : ℕ
  maxValueCode : ℕ
  policy : PolicyMode
  autopollEnabled : Bool
  autopollRegs : List ℕ
  autopollRegDelayMs : ℕ
  autopollCycleDelayMs : ℕ
  whitelist : List PolicyRule
  blacklist : List PolicyRule
  settings : List Seed
  profile : ProfileMetadata

namespace Profile

/-! ## The tables of keys -/

def rootKeys : List String :=
  ["schema_version","id","device","transport","protocol","resources","defaults","policy","settings","observability",
    "register_map","view"]

def deviceKeys : List String := ["model","vendor","class","label"]
def transportKeys : List String := ["bus","controller","address","address_bits"]
def protocolKeys : List String := ["driver","options"]

def optionKeys : List String :=
  ["max_write_value","capture_cache_on_save","autopoll_enabled","autopoll_order","autopoll_reg_delay_ms",
    "autopoll_cycle_delay_ms"]

def resourceKeys : List String :=
  ["id","kind","address","width_bits","access","write_mask","cache","verify","refresh","persist_mask","read_effect",
    "write_effect","fields"]

def defaultsKeys : List String := ["register"]
def policyKeys : List String := ["read","write"]
def policyEntryKeys : List String := ["mode","rules","inactive_rules"]
def ruleKeys : List String := ["resource","match"]
def matchKeys : List String := ["value","mask"]
def settingsKeys : List String := ["cache_seed","desired","apply_on_startup"]
def seedKeys : List String := ["resource","value"]
def observeKeys : List String := ["telemetry","events"]
def modeKeys : List String := ["mode"]
def readEffectKeys : List String := ["clear_mask","latch_high_mask","latch_low_mask"]
def writeEffectKeys : List String := ["one_clear_mask","one_set_mask","self_clear_mask","fixed_mask","fixed_value"]
def refreshKeys : List String := ["on","period_ms"]

/-! ## The two kinds of device -/

/-- Bits of a register, and the largest value. -/
def width (mdio : Bool) : ℕ := if mdio = true then 16 else 8
def maximum (mdio : Bool) : UInt32 := if mdio = true then 65535 else 255
def busName (mdio : Bool) : String := if mdio = true then "mdio" else "i2c"
def controller (mdio : Bool) : String := if mdio = true then "pl_mdio_0" else "pl_i2c_0"
def driver (mdio : Bool) : String := if mdio = true then "bvstk_mdio_bridge" else "bvstk_i2c_bridge"
def addressMax (mdio : Bool) : UInt32 := if mdio = true then 31 else 127
def registerMax (mdio : Bool) : UInt32 := if mdio = true then 31 else 255
def registersMax (mdio : Bool) : ℕ := if mdio = true then 32 else 256
def rulesMax (mdio : Bool) : ℕ := if mdio = true then mdioRulesMax else i2cRulesMax
def settingsMax (mdio : Bool) : ℕ := if mdio = true then mdioSettingsMax else i2cSettingsMax

/-! ## Checks -/

/-- A value that must be there. -/
def need {α : Type} (status : Status) : Option α → Except Status α
  | none => .error status
  | some a => .ok a

def check (status : Status) (p : Prop) [Decidable p] : Except Status Unit := if p then .ok () else .error status

@[simp] theorem need_some {α : Type} (status : Status) (a : α) : need status (some a) = .ok a := rfl

theorem need_eq_ok {α : Type} {status : Status} {o : Option α} {a : α} : need status o = .ok a ↔ o = some a := by
  cases o with
  | none => simp [need]
  | some b => simp [need]

theorem check_of {status : Status} {p : Prop} [Decidable p] (h : p) : check status p = .ok () := if_pos h

theorem check_eq_ok {status : Status} {p : Prop} [Decidable p] {u : Unit} : check status p = .ok u ↔ p := by
  unfold check
  split
  · simpa
  · simpa

@[simp] theorem ok_bind {α β : Type} (a : α) (f : α → Except Status β) : (Except.ok a >>= f) = f a := rfl

/-- Both parts of a successful reading are successful. -/
theorem bind_eq_ok {α β : Type} {x : Except Status α} {f : α → Except Status β} {b : β} :
    (x >>= f) = .ok b ↔ ∃ a, x = .ok a ∧ f a = .ok b := by
  cases x with
  | error e =>
    constructor
    · rintro ⟨⟩
    · rintro ⟨a,⟨⟩,-⟩
  | ok a =>
    constructor
    · exact fun h => ⟨a,rfl,h⟩
    · rintro ⟨a,⟨⟩,h⟩
      exact h

/-- A member that may be missing: what is read from it, or a default. -/
def optional {α : Type} (v : View) (read : View → Option α) (default : α) : Option α :=
  match v with
  | none => some default
  | some view => read (some view)

/-- A text that may not be empty. -/
def nonempty (cap : ℕ) (v : View) : Option Name := (text cap v).filter (· != [])

/-! ## Registers -/

/-- `driver_mode`. -/
def driverMode (v : View) : Bool := (fields modeKeys v).any fun f => equal (f "mode") "driver"

/-- `zero_effect` with one of its two tables. -/
def zeroEffect (keys : List String) (v : View) : Bool :=
  v.isNone || (fields keys v).any fun f => keys.all fun k => (f k).isNone || (hex 0 (f k)).isSome

/-- `no_refresh`. -/
def noRefresh (v : View) : Bool :=
  v.isNone || (fields refreshKeys v).any fun f =>
    emptyArray (f "on") && ((f "period_ms").isNone || (number 0 (f "period_ms")).isSome)

/-- What a register has to be. -/
def resourceSupported (mdio : Bool) (f : Views) : Bool :=
  number (UInt32.ofNat (width mdio)) (f "width_bits") == some (width mdio) && equal (f "access") "rw" &&
    hex (maximum mdio) (f "write_mask") == some (maximum mdio).toNat && driverMode (f "cache") &&
    driverMode (f "verify") && noRefresh (f "refresh") &&
    ((f "persist_mask").isNone || (hex 0 (f "persist_mask")).isSome) && zeroEffect readEffectKeys (f "read_effect") &&
    zeroEffect writeEffectKeys (f "write_effect") && emptyArray (f "fields")

/-- The terminated text in a table at an offset. -/
def textAt (ids : List UInt8) (offset : ℕ) : Name := (ids.drop offset).takeWhile (· != 0)

/-- What is known of the registers; `seen` are those that have an identifier. -/
structure ResourceScan where
  seen : ℕ → Bool
  count : ℕ
  ids : List UInt8
  idOffset : ℕ → ℕ

/-- One register; what it does not say is in `defaults`. -/
def resource (mdio : Bool) (defaults : Views) (s : ResourceScan) (entry : Bytes) : Except Status ResourceScan := do
  let f ← need .malformed (fields resourceKeys (some entry))
  let id ← need .malformed ((text 32 (f "id")).filter (idValid ·))
  check .malformed (equal (f "kind") "register" = true)
  let reg ← need .malformed (hex (registerMax mdio) (f "address"))
  check .malformed (s.seen reg = false ∧ s.count < registersMax mdio)
  check .malformed (((List.range 256).any fun k => s.seen k && textAt s.ids (s.idOffset k) == id) = false)
  check .range (id.length + 1 ≤ profileIdsCap - s.ids.length)
  check .unsupported (resourceSupported mdio (fun key => (f key).or (defaults key)) = true)
  .ok ⟨Function.update s.seen reg true,s.count + 1,s.ids ++ id ++ [0],Function.update s.idOffset reg s.ids.length⟩

/-- The registers, whose addresses have no gap. -/
def resources (mdio : Bool) (defaults : Views) (v : View) : Except Status ResourceScan := do
  let s ← items (resource mdio defaults) v ⟨fun _ => false,0,[0],fun _ => 0⟩
  check .malformed (s.count ≠ 0)
  check .unsupported (((List.range s.count).all s.seen) = true)
  .ok s

/-- `lookup`: the register that an identifier names. -/
def lookup (s : ResourceScan) (v : View) : Option ℕ :=
  (text 32 v).bind fun name => (List.range s.count).find? fun i => textAt s.ids (s.idOffset i) == name

/-! ## The parts of a profile -/

/-- The register map and the view. -/
def assets (r : Views) : Option (Name × Name) := do
  let registerMap ← optional (r "register_map") (fun v => (nonempty registerMapNameMax v).filter (registerMapValid ·)) []
  let view ← optional (r "view")
    (fun v => (nonempty registerMapNameMax v).filter fun s => assetNameValid s jsExtension && registerMap != []) []
  some (registerMap,view)

def wordGeneric : Name := I2cJson.text "generic"

/-- The model, the vendor, the class and the label. -/
def device (v : View) : Option (Name × Name × Name × Name) := do
  let f ← fields deviceKeys v
  let model ← nonempty 65 (f "model")
  let vendor ← optional (f "vendor") (nonempty 65) []
  let deviceClass ← (optional (f "class") (text 16) wordGeneric).filter (classValid ·)
  let label ← optional (f "label") (nonempty 97) []
  some (model,vendor,deviceClass,label)

/-- The address on the bus. -/
def transport (mdio : Bool) (v : View) : Except Status ℕ := do
  let f ← need .unsupported (fields transportKeys v)
  check .unsupported (equal (f "bus") (busName mdio) = true ∧ equal (f "controller") (controller mdio) = true)
  let address ← need .unsupported (hex (addressMax mdio) (f "address"))
  if mdio = true then check .malformed (f "address_bits" = none)
  else check .unsupported (optional (f "address_bits") (number 7) 7 = some 7)
  .ok address

/-- The views of the driver's options. -/
def protocol (mdio : Bool) (v : View) : Except Status Views := do
  let f ← need .unsupported (fields protocolKeys v)
  check .unsupported (equal (f "driver") (driver mdio) = true)
  need .malformed (optional (f "options") (fields optionKeys) noViews)

/-- The largest value and the three parameters of polling. -/
structure Options where
  maxValueCode : ℕ
  autopollEnabled : Bool
  autopollRegDelayMs : ℕ
  autopollCycleDelayMs : ℕ

def mdioOptions (o : Views) : Except Status Options := do
  check .malformed (o "max_write_value" = none ∧ o "capture_cache_on_save" = none)
  let enabled ← need .malformed (optional (o "autopoll_enabled") boolean false)
  let regDelay ← need .malformed (optional (o "autopoll_reg_delay_ms") (number 60000) 0)
  let cycleDelay ← need .malformed (optional (o "autopoll_cycle_delay_ms") (number 600000) 50)
  .ok ⟨0,enabled,regDelay,cycleDelay⟩

def i2cOptions (o : Views) : Except Status Options := do
  let code ← need .malformed (hex 64 (o "max_write_value"))
  check .unsupported (optional (o "capture_cache_on_save") boolean true = some true)
  check .unsupported (∀ k ∈ ["autopoll_enabled","autopoll_order","autopoll_reg_delay_ms","autopoll_cycle_delay_ms"], o k = none)
  .ok ⟨code,false,0,0⟩

def driverOptions (mdio : Bool) (o : Views) : Except Status Options := if mdio = true then mdioOptions o else i2cOptions o

/-- What registers have in common. -/
def defaultsOf (v : View) : Except Status Views :=
  match v with
  | none => .ok noViews
  | some view => do
    let f ← need .unsupported (fields defaultsKeys (some view))
    let defaults ← need .malformed (optional (f "register") (fields resourceKeys) noViews)
    check .malformed (defaults "id" = none ∧ defaults "kind" = none ∧ defaults "address" = none)
    .ok defaults

/-- One register of the order of polling. -/
def autopollReg (s : ResourceScan) (regs : List ℕ) (entry : Bytes) : Except Status (List ℕ) := do
  let reg ← need .malformed (lookup s (some entry))
  check .malformed (reg ∉ regs ∧ regs.length < mdioAutopollRegsMax)
  .ok (regs ++ [reg])

/-- The order of polling; I2C devices have none. -/
def autopollOrder (mdio : Bool) (s : ResourceScan) (v : View) : Except Status (List ℕ) :=
  if mdio = true then items (autopollReg s) v [] else .ok []

/-- What a rule compares with: the value and the mask. -/
def matchOf (mdio : Bool) (v : View) : Option (ℕ × ℕ) :=
  optional v (fun v => do
    let f ← fields matchKeys v
    if f "value" = none ∧ f "mask" = none then some (0,0)
    else
      let val ← hex (maximum mdio) (f "value")
      let mask ← hex (maximum mdio) (f "mask")
      some (val,mask)) (0,0)

/-- One rule of a list. -/
def rule (mdio : Bool) (s : ResourceScan) (maxValueCode : ℕ) (rules : List PolicyRule) (entry : Bytes) :
    Except Status (List PolicyRule) := do
  check .malformed (rules.length < rulesMax mdio)
  let f ← need .malformed (fields ruleKeys (some entry))
  let reg ← need .malformed (lookup s (f "resource"))
  let (val,mask) ← need .malformed (matchOf mdio (f "match"))
  check .unsupported (mdio = true ∨ mask = 255)
  check .range (mdio = true ∨ val ≤ maxValueCode)
  .ok (rules ++ [⟨reg,val,mask⟩])

/-- The mode of a policy, from its word. -/
def policyMode (v : View) : Option PolicyMode :=
  if equal v "blacklist" = true then some .blacklist
  else if equal v "whitelist" = true then some .whitelist
  else none

/-- The mode for writes, and the views of the whitelist and the blacklist. -/
def writePolicy (v : View) : Option (PolicyMode × View × View) :=
  optional v (fun v => do
    let f ← fields policyEntryKeys v
    let mode ← policyMode (f "mode")
    match mode with
    | .whitelist => some (mode,f "rules",f "inactive_rules")
    | .blacklist => some (mode,f "inactive_rules",f "rules")) (.whitelist,none,none)

/-- The policy: reads are not restricted. -/
def policy (mdio : Bool) (s : ResourceScan) (maxValueCode : ℕ) (v : View) :
    Except Status (PolicyMode × List PolicyRule × List PolicyRule) := do
  let policies ← need .unsupported (fields policyKeys v)
  let read ← need .unsupported (fields policyEntryKeys (policies "read"))
  check .unsupported (equal (read "mode") "blacklist" = true ∧ emptyArray (read "rules") = true ∧
    emptyArray (read "inactive_rules") = true)
  let (mode,white,black) ← need .malformed (writePolicy (policies "write"))
  let whitelist ← items (rule mdio s maxValueCode) white []
  let blacklist ← items (rule mdio s maxValueCode) black []
  .ok (mode,whitelist,blacklist)

/-- One value that the cache starts with. -/
def seed (mdio : Bool) (s : ResourceScan) (seeds : List Seed) (entry : Bytes) : Except Status (List Seed) := do
  check .malformed (seeds.length < settingsMax mdio)
  let f ← need .malformed (fields seedKeys (some entry))
  let reg ← need .malformed (lookup s (f "resource"))
  check .malformed (∀ x ∈ seeds, x.reg ≠ reg)
  let val ← need .malformed (hex (maximum mdio) (f "value"))
  .ok (seeds ++ [⟨reg,val⟩])

def settings (mdio : Bool) (s : ResourceScan) (v : View) : Except Status (List Seed) :=
  match v with
  | none => .ok []
  | some view => do
    let f ← need .unsupported (fields settingsKeys (some view))
    check .unsupported (emptyArray (f "desired") = true ∧
      optional (f "apply_on_startup") boolean false = some false)
    items (seed mdio s) (f "cache_seed") []

/-- Nothing can be turned off. -/
def observability (v : View) : Except Status Unit :=
  match v with
  | none => .ok ()
  | some view => do
    let f ← need .malformed (fields observeKeys (some view))
    check .unsupported (optional (f "telemetry") boolean true = some true ∧ optional (f "events") boolean true = some true)

/-- `parse`, up to the check of the whole configuration. -/
def parse (mdio : Bool) (json : Bytes) : Except Status DeviceProfile := do
  let r ← need .malformed (fields rootKeys (document json))
  check .malformed (number 2 (r "schema_version") = some 2)
  let name ← need .malformed ((text i2cNameMax (r "id")).filter (idValid ·))
  let (registerMap,view) ← need .malformed (assets r)
  let (model,vendor,deviceClass,label) ← need .malformed (device (r "device"))
  let address ← transport mdio (r "transport")
  let o ← protocol mdio (r "protocol")
  let options ← driverOptions mdio o
  let defaults ← defaultsOf (r "defaults")
  let s ← resources mdio defaults (r "resources")
  let autopollRegs ← autopollOrder mdio s (o "autopoll_order")
  let (mode,whitelist,blacklist) ← policy mdio s options.maxValueCode (r "policy")
  let seeds ← settings mdio s (r "settings")
  observability (r "observability")
  .ok ⟨name,address,s.count,options.maxValueCode,mode,options.autopollEnabled,autopollRegs,options.autopollRegDelayMs,
    options.autopollCycleDelayMs,whitelist,blacklist,seeds,
    ⟨2,vendor,model,deviceClass,label,registerMap,view,s.idOffset,s.ids⟩⟩

end Profile

/-! ## The two results -/

/-- The configuration of an I2C device; nothing names a file. -/
def DeviceProfile.toI2c (p : DeviceProfile) : I2cFileConfig where
  name := p.name
  addr7b := UInt8.ofNat p.address
  regCount := p.regCount
  maxValueCode := UInt8.ofNat p.maxValueCode
  policy := p.policy.code
  whitelist := p.whitelist.map fun r => ⟨UInt8.ofNat r.reg,UInt8.ofNat r.val⟩
  blacklist := p.blacklist.map fun r => ⟨UInt8.ofNat r.reg,UInt8.ofNat r.val⟩
  profile := p.profile
  fileName := []
  settings := p.settings.map fun s => ⟨UInt8.ofNat s.reg,UInt8.ofNat s.val⟩

/-- The configuration of a PHY. -/
def DeviceProfile.toMdio (p : DeviceProfile) : MdioPhyConfig where
  name := p.name
  fileName := []
  phyAddr := UInt8.ofNat p.address
  regCount := UInt8.ofNat p.regCount
  policy := p.policy.code
  autopollEnabled := p.autopollEnabled
  autopollRegs := p.autopollRegs.map UInt8.ofNat
  autopollRegDelayMs := UInt32.ofNat p.autopollRegDelayMs
  autopollCycleDelayMs := UInt32.ofNat p.autopollCycleDelayMs
  whitelist := p.whitelist.map fun r => ⟨UInt8.ofNat r.reg,UInt16.ofNat r.val,UInt16.ofNat r.mask⟩
  blacklist := p.blacklist.map fun r => ⟨UInt8.ofNat r.reg,UInt16.ofNat r.val,UInt16.ofNat r.mask⟩
  settings := p.settings.map fun s => ⟨UInt8.ofNat s.reg,UInt16.ofNat s.val⟩
  settingsSpare := List.replicate (4 * (mdioSettingsMax - p.settings.length)) 0
  profile := p.profile

/-- `bvstk_device_profile_parse_i2c`. -/
def parseI2cProfile (json : Bytes) : Except Status I2cFileConfig :=
  (Profile.parse false json).bind fun p =>
    if i2cConfigValidate p.toI2c = .ok then .ok p.toI2c else .error (i2cConfigValidate p.toI2c)

/-- `bvstk_device_profile_parse_mdio`. -/
def parseMdioProfile (json : Bytes) : Except Status MdioPhyConfig :=
  (Profile.parse true json).bind fun p =>
    if mdioConfigValidate p.toMdio = .ok then .ok p.toMdio else .error (mdioConfigValidate p.toMdio)

end Bvstk.Config
