import Bvstk.Config.I2cConfig
import Bvstk.I2c.MasterService

/-! # The configuration store and its mirror

The I2C part of `config_store.c`, which keeps the configurations in memory, and the part of
`bvstk_runtime.c` that copies between the store and the service.
-/
namespace Bvstk.I2c
open Config CallLog

abbrev ConfigStore := List I2cFileConfig

/-! ## The store -/

/-- `config_store_find_i2c_device_by_name`, as the place in the store. -/
def configStoreFindByName (store : ConfigStore) (name : Name) : Option ℕ :=
  if name = [] then none else store.findIdx? fun c => sameIgnoringCase c.name name

def configStoreFindByAddr (store : ConfigStore) (addr7b : UInt8) : Option ℕ :=
  store.findIdx? fun c => c.addr7b == addr7b &&& 0x7F

/-- `config_store_set_i2c_device`: an entry keeps the name of its file. -/
def configStoreSet (store : ConfigStore) (config : I2cFileConfig) : Option ConfigStore :=
  if config.name = [] then none
  else
    match store.findIdx? fun c => sameIgnoringCase c.name config.name with
    | some i => some (store.modify i fun old => { config with fileName := old.fileName.take (i2cFileNameMax - 1) })
    | none => if store.length < i2cMaxDevices then some (store ++ [config]) else none

/-! ## Devices of the service -/

def masterServiceFindByName (s : I2cState) (name : Name) : Option ℕ :=
  if name = [] then none else s.devices.items.findIdx? fun d => sameIgnoringCase d.name name

def masterServiceFindByAddr (s : I2cState) (addr7b : UInt8) : Option ℕ :=
  s.devices.items.findIdx? fun d => d.addr7b == addr7b &&& 0x7F

/-- `bvstk_i2c_master_service_get_policy`. -/
def masterServiceGetPolicy (s : I2cState) (deviceId : ℕ) : Option I2cPolicyEntry := s.policy.items[deviceId]?

/-! ## The mirror -/

/-- `update_setting`: the first setting of the register, or a new one while there is room. -/
def updateSetting (settings : List I2cRule) (reg value : UInt8) : List I2cRule :=
  match settings.findIdx? fun s => s.reg == reg with
  | some i => settings.set i ⟨reg,value⟩
  | none => if settings.length < i2cSettingsMax then settings ++ [⟨reg,value⟩] else settings

/-- One turn of the loop over the registers. -/
def captureRegister (c : RegisterCache) (deviceId : ℕ) (settings : List I2cRule) (reg : ℕ) : List I2cRule :=
  if cacheIsValid c deviceId (UInt8.ofNat reg) then
    updateSetting settings (UInt8.ofNat reg) (c.entries deviceId (UInt8.ofNat reg)).value
  else settings

/-- What `sync_i2c_device_config` makes of a stored configuration. -/
def mirroredConfig (s : I2cState) (deviceId : ℕ) (includeCacheValues : Bool) (device : I2cDevice) (policy : I2cPolicyEntry)
    (stored : I2cFileConfig) : I2cFileConfig :=
  { stored with
    addr7b := device.addr7b
    regCount := device.regCount
    maxValueCode := device.maxValueCode
    policy := policy.mode.code
    whitelist := policy.whitelist
    blacklist := policy.blacklist
    settings :=
      if includeCacheValues then (List.range device.regCount).foldl (captureRegister s.cache deviceId) stored.settings
      else stored.settings }

/-- `sync_i2c_device_config`; the store that comes of it, if it succeeds. -/
def syncI2cDeviceConfig (s : I2cState) (store : ConfigStore) (deviceId : ℕ) (includeCacheValues : Bool) :
    Option ConfigStore :=
  match devicesGet s.devices deviceId, masterServiceGetPolicy s deviceId with
  | .ok device, some policy =>
    match (configStoreFindByName store device.name).bind (store[·]?) with
    | none => none
    | some stored => configStoreSet store (mirroredConfig s deviceId includeCacheValues device policy stored)
  | _, _ => none

/-- `bvstk_runtime_i2c_sync_device` and `bvstk_runtime_i2c_sync_policy`. -/
def runtimeI2cSyncDevice (s : I2cState) (store : ConfigStore) (deviceId : ℕ) : Option ConfigStore :=
  syncI2cDeviceConfig s store deviceId true

def runtimeI2cSyncPolicy (s : I2cState) (store : ConfigStore) (deviceId : ℕ) : Option ConfigStore :=
  syncI2cDeviceConfig s store deviceId false

/-- The device a configuration is for: by its name, or else by its address. -/
def runtimeI2cTarget (s : I2cState) (config : I2cFileConfig) : Option ℕ :=
  (masterServiceFindByName s config.name).or (masterServiceFindByAddr s config.addr7b)

/-- `bvstk_runtime_i2c_apply_config`. -/
def runtimeI2cApplyConfig {ε : Type} (w : I2cWorld ε) (config : I2cFileConfig) : Bool × I2cWorld ε :=
  match runtimeI2cTarget w.state config with
  | none => (false,w)
  | some deviceId =>
    let (status,w) := masterServiceSetConfig w deviceId config.toI2cDeviceConfig
    (decide (status = .ok),w)

/-! ## Facts about the store -/

theorem sameIgnoringCase_iff {a b : Name} : sameIgnoringCase a b = true ↔ a.map toLower = b.map toLower := by
  simp [sameIgnoringCase]

theorem sameIgnoringCase_congr {a b : Name} (h : sameIgnoringCase a b = true) (c : Name) :
    sameIgnoringCase c a = sameIgnoringCase c b := by
  unfold sameIgnoringCase
  rw [sameIgnoringCase_iff.mp h]

theorem findByName_entry {store : ConfigStore} {name : Name} {i : ℕ} (h : configStoreFindByName store name = some i) :
    ∃ stored, store[i]? = some stored ∧ sameIgnoringCase stored.name name = true := by
  unfold configStoreFindByName at h
  split_ifs at h
  obtain ⟨hi,hname,-⟩ := List.findIdx?_eq_some_iff_getElem.mp h
  exact ⟨store[i],List.getElem?_eq_getElem hi,hname⟩

/-- An entry put back under its own name, in whatever case, comes to its own place. -/
theorem configStoreSet_found {store : ConfigStore} {config stored : I2cFileConfig} {name : Name} {i : ℕ}
    (hfind : configStoreFindByName store name = some i) (hstored : store[i]? = some stored)
    (hname : config.name.map toLower = stored.name.map toLower) :
    configStoreSet store config =
      some (store.modify i fun old => { config with fileName := old.fileName.take (i2cFileNameMax - 1) }) := by
  obtain ⟨stored',hstored',hsame⟩ := findByName_entry hfind
  obtain rfl : stored = stored' := Option.some.inj (hstored.symm.trans hstored')
  unfold configStoreFindByName at hfind
  split_ifs at hfind with hempty
  have hlower : config.name.map toLower = name.map toLower := hname.trans (sameIgnoringCase_iff.mp hsame)
  have hkept : config.name ≠ [] := by
    intro hnil
    rw [hnil, List.map_nil, eq_comm, List.map_eq_nil_iff] at hlower
    exact hempty hlower
  have hpred : (fun c : I2cFileConfig => sameIgnoringCase c.name config.name) = fun c => sameIgnoringCase c.name name := by
    funext c
    exact sameIgnoringCase_congr (sameIgnoringCase_iff.mpr hlower) c.name
  unfold configStoreSet
  rw [if_neg hkept, hpred, hfind]

end Bvstk.I2c
