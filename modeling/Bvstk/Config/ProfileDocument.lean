import Bvstk.Config.ProfileReading

/-! # The document of a profile

The tree that stands for a profile, the table of identifiers as the parser lays it out, and the
profiles that are as the parser leaves them.
-/
namespace Bvstk.Config.Profile
open JsonText (Means Tree)
open I2cJson (decimal)

/-! ## The tables -/

/-- No two members of an object are one to the reader, and all of them fit in its buffer. -/
structure Tables : Prop where
  root : Table rootKeys
  device : Table deviceKeys
  transport : Table transportKeys
  protocol : Table protocolKeys
  option : Table optionKeys
  resource : Table resourceKeys
  defaults : Table defaultsKeys
  policy : Table policyKeys
  policyEntry : Table policyEntryKeys
  rule : Table ruleKeys
  matching : Table matchKeys
  settings : Table settingsKeys
  seed : Table seedKeys
  observe : Table observeKeys
  mode : Table modeKeys

theorem tables : Tables where
  root := by decide +kernel
  device := by decide +kernel
  transport := by decide +kernel
  protocol := by decide +kernel
  option := by decide +kernel
  resource := by decide +kernel
  defaults := by decide +kernel
  policy := by decide +kernel
  policyEntry := by decide +kernel
  rule := by decide +kernel
  matching := by decide +kernel
  settings := by decide +kernel
  seed := by decide +kernel
  observe := by decide +kernel
  mode := by decide +kernel

/-! ## The tree -/

def str (s : String) : Tree := .string (I2cJson.text s)
def num (k : ℕ) : Tree := .scalar (decimal k)
def hexTree (digits k : ℕ) : Tree := .string (hexText digits k)
def boolTree (b : Bool) : Tree := .scalar (boolText b)
def unlessEmpty (s : Name) : Option Tree := if s = [] then none else some (.string s)

def deviceTree (p : ProfileMetadata) : Tree :=
  objectOf [("model",some (.string p.model)),("class",some (.string p.deviceClass)),("vendor",unlessEmpty p.vendor),
    ("label",unlessEmpty p.label)]

def transportTree (mdio : Bool) (address : ℕ) : Tree :=
  objectOf [("bus",some (str (busName mdio))),("controller",some (str (controller mdio))),
    ("address",some (hexTree 2 address)),("address_bits",if mdio = true then none else some (num 7))]

def optionsTree (mdio : Bool) (p : DeviceProfile) (ids : ℕ → Name) : Tree :=
  if mdio = true then
    objectOf [("autopoll_enabled",some (boolTree p.autopollEnabled)),
      ("autopoll_reg_delay_ms",some (num p.autopollRegDelayMs)),
      ("autopoll_cycle_delay_ms",some (num p.autopollCycleDelayMs)),
      ("autopoll_order",some (.array (p.autopollRegs.map fun r => .string (ids r))))]
  else objectOf [("max_write_value",some (hexTree 2 p.maxValueCode)),("capture_cache_on_save",some (boolTree true))]

def protocolTree (mdio : Bool) (p : DeviceProfile) (ids : ℕ → Name) : Tree :=
  objectOf [("driver",some (str (driver mdio))),("options",some (optionsTree mdio p ids))]

def modeTree (s : String) : Tree := objectOf [("mode",some (str s))]

def registerTree (mdio : Bool) : Tree :=
  objectOf [("width_bits",some (num (width mdio))),("access",some (str "rw")),
    ("write_mask",some (hexTree (width mdio / 4) (maximum mdio).toNat)),("cache",some (modeTree "driver")),
    ("verify",some (modeTree "driver"))]

def defaultsTree (mdio : Bool) : Tree := objectOf [("register",some (registerTree mdio))]

def resourceTree (ids : ℕ → Name) (i : ℕ) : Tree :=
  objectOf [("id",some (.string (ids i))),("kind",some (str "register")),("address",some (hexTree 2 i))]

def ruleTree (mdio : Bool) (ids : ℕ → Name) (r : PolicyRule) : Tree :=
  objectOf [("resource",some (.string (ids r.reg))),
    ("match",some (objectOf [("value",some (hexTree (width mdio / 4) r.val)),
      ("mask",some (hexTree (width mdio / 4) r.mask))]))]

def readTree : Tree := objectOf [("mode",some (str "blacklist")),("rules",some (.array []))]

def modeName (mode : PolicyMode) : String :=
  match mode with
  | .whitelist => "whitelist"
  | .blacklist => "blacklist"

def writeTree (mdio : Bool) (p : DeviceProfile) (ids : ℕ → Name) : Tree :=
  objectOf [("mode",some (str (modeName p.policy))),
    ("rules",some (.array ((DeviceProfile.active p).map (ruleTree mdio ids)))),
    ("inactive_rules",some (.array ((DeviceProfile.inactive p).map (ruleTree mdio ids))))]

def policyTree (mdio : Bool) (p : DeviceProfile) (ids : ℕ → Name) : Tree :=
  objectOf [("read",some readTree),("write",some (writeTree mdio p ids))]

def seedTree (mdio : Bool) (ids : ℕ → Name) (s : Seed) : Tree :=
  objectOf [("resource",some (.string (ids s.reg))),("value",some (hexTree (width mdio / 4) s.val))]

def settingsTree (mdio : Bool) (p : DeviceProfile) (ids : ℕ → Name) : Tree :=
  objectOf [("desired",some (.array [])),("cache_seed",some (.array (p.settings.map (seedTree mdio ids)))),
    ("apply_on_startup",some (boolTree false))]

def observabilityTree : Tree := objectOf [("telemetry",some (boolTree true)),("events",some (boolTree true))]

/-- The members of the document; `ids` are the identifiers of the registers. -/
def documentFields (mdio : Bool) (p : DeviceProfile) (ids : ℕ → Name) : List (String × Option Tree) :=
  [("schema_version",some (num 2)),("id",some (.string p.name)),
    ("register_map",unlessEmpty p.profile.registerMap),("view",unlessEmpty p.profile.view),
    ("device",some (deviceTree p.profile)),("transport",some (transportTree mdio p.address)),
    ("protocol",some (protocolTree mdio p ids)),("defaults",some (defaultsTree mdio)),
    ("resources",some (.array ((List.range p.regCount).map (resourceTree ids)))),("policy",some (policyTree mdio p ids)),
    ("settings",some (settingsTree mdio p ids)),("observability",some observabilityTree)]

def documentTree (mdio : Bool) (p : DeviceProfile) (ids : ℕ → Name) : Tree := objectOf (documentFields mdio p ids)

/-! ## The table of identifiers -/

/-- The identifiers of the first registers one after the other, each with a NUL behind it. -/
def layout (ids : ℕ → Name) (count : ℕ) : List UInt8 := 0 :: (List.range count).flatMap fun i => ids i ++ [0]

/-- Where each of them begins. -/
def offsets (ids : ℕ → Name) (count k : ℕ) : ℕ := if k < count then (layout ids k).length else 0

theorem layout_succ (ids : ℕ → Name) (count : ℕ) : layout ids (count + 1) = layout ids count ++ ids count ++ [0] := by
  simp [layout, List.range_succ]

theorem layout_split (ids : ℕ → Name) {k count : ℕ} (h : k < count) :
    ∃ more, layout ids count = layout ids k ++ (ids k ++ 0 :: more) := by
  induction count with
  | zero => cases h
  | succ count ih =>
    rw [layout_succ]
    rcases Nat.lt_succ_iff_lt_or_eq.mp h with h | rfl
    · obtain ⟨more,hmore⟩ := ih h
      exact ⟨more ++ ids count ++ [0],by rw [hmore]; simp⟩
    · exact ⟨[],by simp⟩

theorem textAt_layout {ids : ℕ → Name} {k count : ℕ} (h : k < count) (hid : 0 ∉ ids k) :
    textAt (layout ids count) (offsets ids count k) = ids k := by
  obtain ⟨more,hmore⟩ := layout_split ids h
  have hplain : ∀ b ∈ ids k, (b != 0) = true := fun b hb => by
    rw [bne_iff_ne]
    rintro rfl
    exact hid hb
  rw [textAt, offsets, if_pos h, hmore, List.drop_left, List.takeWhile_append_of_pos hplain]
  simp

theorem offsets_succ (ids : ℕ → Name) (count : ℕ) :
    offsets ids (count + 1) = Function.update (offsets ids count) count (layout ids count).length := by
  funext k
  unfold offsets
  by_cases hk : k = count
  · rw [hk, Function.update_self, if_pos (Nat.lt_succ_self count)]
  · rw [Function.update_of_ne hk]
    have hiff : k < count + 1 ↔ k < count := by omega
    simp only [hiff]

/-! ## Profiles that documents are made from -/

theorem idValid_plain {s : Name} (h : idValid s = true) : s ≠ [] ∧ s.length < 32 ∧ Printable s ∧ 0 ∉ s := by
  have hbyte : ∀ b : UInt8, (isLower b || digit b || b == 95 || b == 45) = true → 32 ≤ b ∧ b ≠ 127 := by
    have hall : ∀ k : Fin 256, (isLower (UInt8.ofNat k) || digit (UInt8.ofNat k) || UInt8.ofNat k == 95 || UInt8.ofNat k == 45) = true →
        32 ≤ UInt8.ofNat k ∧ UInt8.ofNat k ≠ 127 := by
      decide +kernel
    intro b hb
    have hk := hall ⟨b.toNat,b.toNat_lt⟩
    rw [UInt8.ofNat_toNat] at hk
    exact hk hb
  cases s with
  | nil => cases h
  | cons c s =>
    rw [idValid, Bool.and_eq_true, Bool.and_eq_true, List.all_eq_true, decide_eq_true_eq] at h
    have hprintable : Printable (c :: s) := fun b hb => hbyte b (h.2 b hb)
    exact ⟨List.cons_ne_nil _ _,h.1.2,hprintable,fun hzero => absurd (hprintable 0 hzero).1 (by decide)⟩

/-- A rule that the reader takes. -/
structure RuleOk (mdio : Bool) (regCount maxValueCode : ℕ) (r : PolicyRule) : Prop where
  reg : r.reg < regCount
  val : r.val ≤ (maximum mdio).toNat
  mask : r.mask ≤ (maximum mdio).toNat
  kind : mdio = true ∨ (r.mask = 255 ∧ r.val ≤ maxValueCode)

/-- The options of a kind of device that the other kind does not have are zero. -/
def OptionsOk (mdio : Bool) (p : DeviceProfile) : Prop :=
  if mdio = true then
    p.maxValueCode = 0 ∧ p.autopollRegs.Nodup ∧ (∀ r ∈ p.autopollRegs, r < p.regCount) ∧
      p.autopollRegs.length ≤ mdioAutopollRegsMax ∧ p.autopollRegDelayMs ≤ 60000 ∧ p.autopollCycleDelayMs ≤ 600000
  else
    p.maxValueCode ≤ 64 ∧ p.autopollEnabled = false ∧ p.autopollRegs = [] ∧ p.autopollRegDelayMs = 0 ∧
      p.autopollCycleDelayMs = 0

/-- Metadata of version 2 whose texts the reader takes. -/
structure MetadataOk (p : ProfileMetadata) : Prop where
  version : p.version = 2
  model : p.model ≠ [] ∧ p.model.length < 65 ∧ Printable p.model
  vendor : p.vendor.length < 65 ∧ Printable p.vendor
  label : p.label.length < 97 ∧ Printable p.label
  deviceClass : classValid p.deviceClass = true
  registerMap : registerMapValid p.registerMap = true
  view : assetNameValid p.view jsExtension = true
  mapped : p.view ≠ [] → p.registerMap ≠ []

/-- Identifiers that the table has room for, and no two registers with one. -/
structure IdsOk (ids : ℕ → Name) (count : ℕ) : Prop where
  valid : ∀ i < count, idValid (ids i) = true
  distinct : ∀ i < count, ∀ j < count, ids i = ids j → i = j
  size : (layout ids count).length ≤ profileIdsCap

/-- A profile as `parse` leaves it; `ids` are the identifiers of its registers. -/
structure Canonical (mdio : Bool) (p : DeviceProfile) (ids : ℕ → Name) : Prop where
  name : idValid p.name = true
  metadata : MetadataOk p.profile
  address : p.address ≤ (addressMax mdio).toNat
  options : OptionsOk mdio p
  count : 0 < p.regCount ∧ p.regCount ≤ registersMax mdio
  identifiers : IdsOk ids p.regCount
  table : p.profile.ids = layout ids p.regCount ∧ p.profile.idOffset = offsets ids p.regCount
  whitelist : p.whitelist.length ≤ rulesMax mdio ∧ ∀ r ∈ p.whitelist, RuleOk mdio p.regCount p.maxValueCode r
  blacklist : p.blacklist.length ≤ rulesMax mdio ∧ ∀ r ∈ p.blacklist, RuleOk mdio p.regCount p.maxValueCode r
  settings : p.settings.length ≤ settingsMax mdio ∧ (p.settings.map Seed.reg).Nodup ∧
    ∀ s ∈ p.settings, s.reg < p.regCount ∧ s.val ≤ (maximum mdio).toNat

end Bvstk.Config.Profile
