import Bvstk.I2c.ConfigStore

/-! # What a captured cache seeds at the next boot

`bvstk_runtime_i2c_sync_device` writes the cache into the first setting of each register;
at boot the settings are replayed in order, and the last one of a register stays.
-/
namespace Bvstk.I2c
open Config CallLog

section
variable {ε : Type} (P : I2cPlatform ε)

/-! ## Seeding -/

/-- The loop of `initialize_i2c` over the settings of a device. -/
def seedSettings (deviceId : ℕ) (w : I2cWorld ε) (settings : List I2cRule) : I2cWorld ε :=
  settings.foldl (fun w s => (cacheSeed P w deviceId s.reg s.val).2) w

/-- The loop over the devices, from `deviceId` on. -/
def seedDevices : ConfigStore → (deviceId : ℕ) → I2cWorld ε → I2cWorld ε
  | [], _, w => w
  | config :: configs, deviceId, w => seedDevices configs (deviceId + 1) (seedSettings P deviceId w config.settings)

/-- The value a register starts with when this store is booted from, if it has one. -/
def bootSeed (boot : I2cWorld ε) (store : ConfigStore) (deviceId : ℕ) (reg : UInt8) : Option UInt8 :=
  let c := (seedDevices P store 0 boot).state.cache
  if cacheIsValid c deviceId reg then some (c.entries deviceId reg).value else none

/-- The settings of one register, in order. -/
def settingsOf (settings : List I2cRule) (reg : UInt8) : List I2cRule := settings.filter fun s => s.reg == reg

/-- The last setting of a register. -/
def lastSetting (settings : List I2cRule) (reg : UInt8) : Option UInt8 :=
  (settingsOf settings reg).getLast?.map (·.val)

/-- The value of a register that is valid in the cache. -/
def cachedValue (c : RegisterCache) (deviceId : ℕ) (reg : UInt8) : Option UInt8 :=
  if cacheIsValid c deviceId reg then some (c.entries deviceId reg).value else none

theorem cachedValue_congr {c c' : RegisterCache} {deviceId : ℕ} {reg : UInt8} (hcount : c'.deviceCount = c.deviceCount)
    (hentry : c'.entries deviceId reg = c.entries deviceId reg) : cachedValue c' deviceId reg = cachedValue c deviceId reg := by
  unfold cachedValue cacheIsValid
  rw [hcount, hentry]

theorem cachedValue_seed_other {w : I2cWorld ε} {device : ℕ} {r value : UInt8} {deviceId : ℕ} {reg : UInt8}
    (h : ¬(deviceId = device ∧ reg = r)) :
    cachedValue (cacheSeed P w device r value).2.state.cache deviceId reg = cachedValue w.state.cache deviceId reg := by
  unfold cacheSeed
  split_ifs
  · rfl
  · refine cachedValue_congr rfl ?_
    by_cases hd : deviceId = device
    · subst hd
      have hr : reg ≠ r := fun heq => h ⟨rfl,heq⟩
      simp [cacheSet, I2cState.setEntry, RegisterCache.set, Function.update_of_ne hr]
    · simp [cacheSet, I2cState.setEntry, RegisterCache.set, Function.update_of_ne hd]

theorem cachedValue_seed_self {w : I2cWorld ε} {device : ℕ} {r value : UInt8} (h : device < w.state.cache.deviceCount) :
    cachedValue (cacheSeed P w device r value).2.state.cache device r = some value := by
  unfold cacheSeed
  rw [if_neg (Nat.not_le.mpr h)]
  simp [cachedValue, cacheIsValid, cacheSet, I2cState.setEntry, RegisterCache.set, h]

@[simp] theorem cacheSeed_deviceCount (w : I2cWorld ε) (device : ℕ) (r value : UInt8) :
    (cacheSeed P w device r value).2.state.cache.deviceCount = w.state.cache.deviceCount := by
  unfold cacheSeed
  split_ifs <;> rfl

@[simp] theorem seedSettings_deviceCount (device : ℕ) (w : I2cWorld ε) (settings : List I2cRule) :
    (seedSettings P device w settings).state.cache.deviceCount = w.state.cache.deviceCount := by
  induction settings generalizing w with
  | nil => rfl
  | cons s settings ih => exact (ih _).trans (cacheSeed_deviceCount P w device s.reg s.val)

theorem seedSettings_other {device deviceId : ℕ} (h : deviceId ≠ device) (w : I2cWorld ε) (settings : List I2cRule)
    (reg : UInt8) :
    cachedValue (seedSettings P device w settings).state.cache deviceId reg = cachedValue w.state.cache deviceId reg := by
  induction settings generalizing w with
  | nil => rfl
  | cons s settings ih => exact (ih _).trans (cachedValue_seed_other P fun heq => h heq.1)

theorem lastSetting_cons (s : I2cRule) (settings : List I2cRule) (reg : UInt8) :
    lastSetting (s :: settings) reg = (lastSetting settings reg).or (if s.reg = reg then some s.val else none) := by
  unfold lastSetting settingsOf
  rw [List.filter_cons]
  by_cases h : s.reg = reg
  · rw [if_pos (by simpa using h), if_pos h, List.getLast?_cons]
    cases (settings.filter fun s => s.reg == reg).getLast? <;> rfl
  · rw [if_neg (by simpa using h), if_neg h, Option.or_none]

/-- The settings win over what was there, the last one first. -/
theorem seedSettings_self {device : ℕ} {w : I2cWorld ε} (h : device < w.state.cache.deviceCount)
    (settings : List I2cRule) (reg : UInt8) :
    cachedValue (seedSettings P device w settings).state.cache device reg =
      (lastSetting settings reg).or (cachedValue w.state.cache device reg) := by
  induction settings generalizing w with
  | nil => rfl
  | cons s settings ih =>
    have hstep := ih (w := (cacheSeed P w device s.reg s.val).2) (by rwa [cacheSeed_deviceCount])
    refine hstep.trans ?_
    rw [lastSetting_cons, Option.or_assoc]
    congr 1
    by_cases hreg : s.reg = reg
    · subst hreg
      rw [if_pos rfl, cachedValue_seed_self P h, Option.some_or]
    · rw [if_neg hreg, Option.none_or, cachedValue_seed_other P fun heq => hreg heq.2.symm]

theorem seedDevices_cached (store : ConfigStore) (start : ℕ) {w : I2cWorld ε}
    (h : start + store.length ≤ w.state.cache.deviceCount) (deviceId : ℕ) (reg : UInt8) :
    cachedValue (seedDevices P store start w).state.cache deviceId reg =
      if start ≤ deviceId then
        (((store[deviceId - start]?).bind fun c => lastSetting c.settings reg).or (cachedValue w.state.cache deviceId reg))
      else cachedValue w.state.cache deviceId reg := by
  induction store generalizing start w with
  | nil => simp [seedDevices]
  | cons config store ih =>
    rw [List.length_cons] at h
    have hrest := ih (start + 1) (w := seedSettings P start w config.settings) (by rw [seedSettings_deviceCount]; omega)
    refine hrest.trans ?_
    rcases Nat.lt_trichotomy deviceId start with hlt | rfl | hgt
    · rw [if_neg (by omega), if_neg (by omega)]
      exact seedSettings_other P (by omega) w config.settings reg
    · rw [if_neg (by omega), if_pos (Nat.le_refl _), Nat.sub_self]
      exact seedSettings_self P (by omega) config.settings reg
    · rw [if_pos (by omega), if_pos (by omega), seedSettings_other P (by omega)]
      congr 2
      rw [show deviceId - start = deviceId - (start + 1) + 1 by omega, List.getElem?_cons_succ]

/-- With an empty cache to start with, a device gets the last setting of each register. -/
theorem bootSeed_eq {boot : I2cWorld ε} {s : ConfigStore} (h : cacheInit s.length = .ok boot.state.cache)
    {deviceId : ℕ} {config : I2cFileConfig} (hconfig : s[deviceId]? = some config) (reg : UInt8) :
    bootSeed P boot s deviceId reg = lastSetting config.settings reg := by
  unfold cacheInit at h
  split_ifs at h
  have hcache := (Except.ok.inj h).symm
  have hempty : cachedValue boot.state.cache deviceId reg = none := by
    rw [hcache]
    simp [cachedValue, cacheIsValid, RegisterEntry.zero]
  have hall := seedDevices_cached P s 0 (w := boot) (by rw [hcache]; exact Nat.le_of_eq (Nat.zero_add _)) deviceId reg
  rw [if_pos (Nat.zero_le _), Nat.sub_zero, hconfig, hempty, Option.or_none, Option.bind_some] at hall
  exact hall

end

/-! ## Capturing -/

theorem settingsOf_eq_nil {settings : List I2cRule} {reg : UInt8} :
    settingsOf settings reg = [] ↔ (settings.findIdx? fun s => s.reg == reg) = none := by
  simp [settingsOf, List.filter_eq_nil_iff, List.findIdx?_eq_none_iff]

/-- The first setting of the register is replaced. -/
theorem settingsOf_set {settings : List I2cRule} {reg value : UInt8} {i : ℕ}
    (h : (settings.findIdx? fun s => s.reg == reg) = some i) (other : UInt8) :
    settingsOf (settings.set i ⟨reg,value⟩) other =
      if other = reg then ⟨reg,value⟩ :: (settingsOf settings reg).tail else settingsOf settings other := by
  induction settings generalizing i with
  | nil => simp at h
  | cons s settings ih =>
    rw [List.findIdx?_cons] at h
    by_cases hs : s.reg = reg
    · rw [if_pos (by simpa using hs)] at h
      cases h
      rw [List.set_cons_zero]
      unfold settingsOf
      split_ifs with hother
      · subst hother
        simp [hs]
      · have hne : ¬reg = other := fun heq => hother heq.symm
        simp [hs, hne]
    · rw [if_neg (by simpa using hs), Option.map_eq_some_iff] at h
      obtain ⟨j,hj,rfl⟩ := h
      rw [List.set_cons_succ]
      have hstep := ih hj
      unfold settingsOf at hstep ⊢
      rw [List.filter_cons, hstep]
      split_ifs with hsame hother hother
      · subst hother
        exact absurd (by simpa using hsame) hs
      · rw [List.filter_cons, if_pos hsame]
      · rw [List.filter_cons, if_neg (by simpa using hs)]
      · rw [List.filter_cons, if_neg hsame]

theorem settingsOf_updateSetting (settings : List I2cRule) (reg value other : UInt8) :
    settingsOf (updateSetting settings reg value) other =
      if other = reg ∧ (settingsOf settings reg ≠ [] ∨ settings.length < i2cSettingsMax) then
        ⟨reg,value⟩ :: (settingsOf settings reg).tail
      else settingsOf settings other := by
  unfold updateSetting
  split
  · rename_i i hi
    have hsome : settingsOf settings reg ≠ [] := by
      rw [ne_eq, settingsOf_eq_nil, hi]
      exact Option.some_ne_none i
    rw [settingsOf_set hi]
    simp [hsome]
  · rename_i hnone
    have hempty := settingsOf_eq_nil.mpr hnone
    by_cases hroom : settings.length < i2cSettingsMax
    · rw [if_pos hroom]
      unfold settingsOf at hempty ⊢
      rw [List.filter_append, hempty]
      by_cases hother : other = reg
      · subst hother
        simp [hempty, hroom]
      · have hne : ¬reg = other := fun heq => hother heq.symm
        simp [hother, hne]
    · rw [if_neg hroom, if_neg (by simp [hempty, hroom])]

theorem length_updateSetting (settings : List I2cRule) (reg value : UInt8) :
    (updateSetting settings reg value).length =
      if settingsOf settings reg = [] ∧ settings.length < i2cSettingsMax then settings.length + 1 else settings.length := by
  unfold updateSetting
  split
  · rename_i i hi
    have hsome : settingsOf settings reg ≠ [] := by
      rw [ne_eq, settingsOf_eq_nil, hi]
      exact Option.some_ne_none i
    simp [hsome]
  · rename_i hnone
    have hempty := settingsOf_eq_nil.mpr hnone
    split_ifs with hroom hboth hboth <;> simp_all

/-- A register that is captured but has no setting to be written to. -/
def unlisted (c : RegisterCache) (deviceId : ℕ) (settings : List I2cRule) (reg : ℕ) : Bool :=
  cacheIsValid c deviceId (UInt8.ofNat reg) && (settingsOf settings (UInt8.ofNat reg)).isEmpty

section
variable {c : RegisterCache} {deviceId : ℕ}

theorem capture_other {q : UInt8} (regs : List ℕ) (settings : List I2cRule)
    (h : ∀ r ∈ regs, cacheIsValid c deviceId (UInt8.ofNat r) = true → UInt8.ofNat r ≠ q) :
    settingsOf (regs.foldl (captureRegister c deviceId) settings) q = settingsOf settings q := by
  induction regs generalizing settings with
  | nil => rfl
  | cons r regs ih =>
    refine (ih _ fun r' hr' => h r' (List.mem_cons_of_mem r hr')).trans ?_
    unfold captureRegister
    split_ifs with hvalid
    · rw [settingsOf_updateSetting, if_neg]
      exact fun heq => h r List.mem_cons_self hvalid heq.1.symm
    · rfl

/-- One register: its value is the last setting afterwards, unless a later setting or the
lack of room stood in the way. -/
theorem lastSetting_updateSetting (settings : List I2cRule) (reg value : UInt8) :
    lastSetting (updateSetting settings reg value) reg = some value ↔
      (2 ≤ (settingsOf settings reg).length → lastSetting settings reg = some value) ∧
        (settingsOf settings reg = [] → settings.length < i2cSettingsMax) := by
  unfold lastSetting
  rw [settingsOf_updateSetting]
  cases hall : settingsOf settings reg with
  | nil =>
    by_cases hroom : settings.length < i2cSettingsMax
    · simp [hroom]
    · simp [hroom]
  | cons first rest =>
    cases rest with
    | nil => simp
    | cons second rest => simp

theorem ofNat_injective {a b : ℕ} (ha : a < 256) (hb : b < 256) (h : UInt8.ofNat a = UInt8.ofNat b) : a = b := by
  have hnat := congrArg UInt8.toNat h
  rwa [UInt8.toNat_ofNat_of_lt' ha, UInt8.toNat_ofNat_of_lt' hb] at hnat

/-- The whole loop, by induction on the registers that are left; those before do not touch
the settings of the others. -/
theorem capture_exact (regs : List ℕ) (hnodup : regs.Nodup) (hsmall : ∀ r ∈ regs, r < 256) (settings : List I2cRule)
    (hlen : settings.length ≤ i2cSettingsMax) :
    (∀ r ∈ regs, cacheIsValid c deviceId (UInt8.ofNat r) = true →
        lastSetting (regs.foldl (captureRegister c deviceId) settings) (UInt8.ofNat r) =
          some (c.entries deviceId (UInt8.ofNat r)).value) ↔
      (∀ r ∈ regs, cacheIsValid c deviceId (UInt8.ofNat r) = true → 2 ≤ (settingsOf settings (UInt8.ofNat r)).length →
        lastSetting settings (UInt8.ofNat r) = some (c.entries deviceId (UInt8.ofNat r)).value) ∧
        settings.length + (regs.filter (unlisted c deviceId settings)).length ≤ i2cSettingsMax := by
  induction regs generalizing settings with
  | nil => simp [hlen]
  | cons r regs ih =>
    obtain ⟨hfresh,hnodup⟩ := List.nodup_cons.mp hnodup
    have hsmall' : ∀ r' ∈ regs, r' < 256 := fun r' hr' => hsmall r' (List.mem_cons_of_mem r hr')
    have hother : ∀ r' ∈ regs, UInt8.ofNat r' ≠ UInt8.ofNat r := fun r' hr' heq =>
      hfresh (ofNat_injective (hsmall' r' hr') (hsmall r List.mem_cons_self) heq ▸ hr')
    rw [List.forall_mem_cons, List.forall_mem_cons, List.filter_cons]
    by_cases hvalid : cacheIsValid c deviceId (UInt8.ofNat r) = true
    · -- the register is captured: its own settings are final after this turn
      have hturn : captureRegister c deviceId settings r =
          updateSetting settings (UInt8.ofNat r) (c.entries deviceId (UInt8.ofNat r)).value := if_pos hvalid
      have hself : lastSetting ((r :: regs).foldl (captureRegister c deviceId) settings) (UInt8.ofNat r) =
          lastSetting (captureRegister c deviceId settings r) (UInt8.ofNat r) := by
        unfold lastSetting
        rw [List.foldl_cons, capture_other regs _ fun r' hr' _ => hother r' hr']
      have hkept : ∀ r' ∈ regs, settingsOf (captureRegister c deviceId settings r) (UInt8.ofNat r') =
          settingsOf settings (UInt8.ofNat r') := by
        intro r' hr'
        rw [hturn, settingsOf_updateSetting, if_neg fun heq => hother r' hr' heq.1]
      have hfilter : regs.filter (unlisted c deviceId (captureRegister c deviceId settings r)) =
          regs.filter (unlisted c deviceId settings) := by
        refine List.filter_congr fun r' hr' => ?_
        unfold unlisted
        rw [hkept r' hr']
      have hlen' : (captureRegister c deviceId settings r).length ≤ i2cSettingsMax := by
        rw [hturn, length_updateSetting]
        split_ifs with hgrows
        · exact hgrows.2
        · exact hlen
      have hrest := ih hnodup hsmall' (captureRegister c deviceId settings r) hlen'
      rw [hfilter] at hrest
      have hduplicates : (∀ r' ∈ regs, cacheIsValid c deviceId (UInt8.ofNat r') = true →
          2 ≤ (settingsOf (captureRegister c deviceId settings r) (UInt8.ofNat r')).length →
            lastSetting (captureRegister c deviceId settings r) (UInt8.ofNat r') =
              some (c.entries deviceId (UInt8.ofNat r')).value) ↔
          ∀ r' ∈ regs, cacheIsValid c deviceId (UInt8.ofNat r') = true →
            2 ≤ (settingsOf settings (UInt8.ofNat r')).length →
              lastSetting settings (UInt8.ofNat r') = some (c.entries deviceId (UInt8.ofNat r')).value := by
        refine forall₂_congr fun r' hr' => ?_
        unfold lastSetting
        rw [hkept r' hr']
      rw [hduplicates] at hrest
      rw [hself, List.foldl_cons, hrest, hturn, lastSetting_updateSetting, length_updateSetting]
      simp only [hvalid, true_imp_iff]
      by_cases hempty : settingsOf settings (UInt8.ofNat r) = []
      · have hcounted : unlisted c deviceId settings r = true := by simp [unlisted, hvalid, hempty]
        rw [if_pos hcounted, List.length_cons]
        by_cases hroom : settings.length < i2cSettingsMax
        · simp only [hempty, hroom, List.length_nil, and_self, if_true]
          simp only [show ¬(2 ≤ 0) by omega, false_imp_iff, true_imp_iff, true_and]
          rw [show settings.length + 1 + (regs.filter (unlisted c deviceId settings)).length =
            settings.length + ((regs.filter (unlisted c deviceId settings)).length + 1) by omega]
        · simp only [hempty, hroom, true_imp_iff, and_false, false_and, false_iff]
          exact fun hall => hroom (by omega)
      · have hcounted : ¬unlisted c deviceId settings r = true := by simp [unlisted, hempty]
        rw [if_neg hcounted]
        simp only [hempty, false_imp_iff, false_and, and_true, if_false]
        exact and_assoc.symm
    · have hturn : captureRegister c deviceId settings r = settings := if_neg hvalid
      have hcounted : ¬unlisted c deviceId settings r = true := by simp [unlisted, hvalid]
      rw [List.foldl_cons, hturn, if_neg hcounted]
      simp only [hvalid, Bool.false_eq_true, false_imp_iff, true_and]
      exact ih hnodup hsmall' settings hlen

end

/-! ## Across a reboot -/

/-- When the captured values will be the seeds: no later setting of a captured register
says anything else, and there is room for those without a setting. A register behind the
last one of the device is never captured. -/
structure CaptureFits (c : RegisterCache) (deviceId regCount : ℕ) (settings : List I2cRule) : Prop where
  duplicates : ∀ r ∈ List.range regCount, cacheIsValid c deviceId (UInt8.ofNat r) = true →
    2 ≤ (settingsOf settings (UInt8.ofNat r)).length →
      lastSetting settings (UInt8.ofNat r) = some (c.entries deviceId (UInt8.ofNat r)).value
  room : settings.length + ((List.range regCount).filter (unlisted c deviceId settings)).length ≤ i2cSettingsMax
  beyond : ∀ reg : UInt8, regCount ≤ reg.toNat → cacheIsValid c deviceId reg = true →
    lastSetting settings reg = some (c.entries deviceId reg).value

/-- The seeds of a device after a capture: what was valid in the cache, and else what they
were before. -/
theorem capture_seeds_iff {c : RegisterCache} {deviceId regCount : ℕ} {settings : List I2cRule} (hcount : regCount ≤ 256)
    (hlen : settings.length ≤ i2cSettingsMax) :
    (∀ reg, lastSetting ((List.range regCount).foldl (captureRegister c deviceId) settings) reg =
        if cacheIsValid c deviceId reg then some (c.entries deviceId reg).value else lastSetting settings reg) ↔
      CaptureFits c deviceId regCount settings := by
  have hsmall : ∀ r ∈ List.range regCount, r < 256 := fun r hr => by
    have hr := List.mem_range.mp hr
    omega
  have hexact := @capture_exact c deviceId (List.range regCount) List.nodup_range hsmall settings hlen
  have huntouched : ∀ reg : UInt8, ¬(reg.toNat < regCount ∧ cacheIsValid c deviceId reg = true) →
      lastSetting ((List.range regCount).foldl (captureRegister c deviceId) settings) reg = lastSetting settings reg := by
    intro reg hreg
    unfold lastSetting
    rw [capture_other]
    rintro r hr hvalid rfl
    have hlt := List.mem_range.mp hr
    rw [UInt8.toNat_ofNat_of_lt' (Nat.lt_of_lt_of_le hlt hcount)] at hreg
    exact hreg ⟨hlt,hvalid⟩
  constructor
  · intro h
    have hcaptured := hexact.mp fun r hr hvalid => by rw [h, if_pos hvalid]
    refine ⟨hcaptured.1,hcaptured.2,fun reg hbeyond hvalid => ?_⟩
    rw [← huntouched reg (by omega), h, if_pos hvalid]
  · intro h reg
    split_ifs with hvalid
    · by_cases hlt : reg.toNat < regCount
      · have hself := hexact.mpr ⟨h.duplicates,h.room⟩ reg.toNat (List.mem_range.mpr hlt)
        rw [UInt8.ofNat_toNat] at hself
        exact hself hvalid
      · rw [huntouched reg fun hin => hlt hin.1]
        exact h.beyond reg (by omega) hvalid
    · exact huntouched reg fun hin => hvalid hin.2

/-- The store after a successful mirroring of a device whose entry is known. -/
theorem syncI2cDeviceConfig_store {s : I2cState} {store store' : ConfigStore} {deviceId i : ℕ} {values : Bool}
    {device : I2cDevice} {config : I2cFileConfig} (hsync : syncI2cDeviceConfig s store deviceId values = some store')
    (hdevice : devicesGet s.devices deviceId = .ok device) (hfind : configStoreFindByName store device.name = some i)
    (hconfig : store[i]? = some config) :
    ∃ policy, masterServiceGetPolicy s deviceId = some policy ∧
      store' = store.modify i fun old =>
        { mirroredConfig s deviceId values device policy config with fileName := old.fileName.take (i2cFileNameMax - 1) } := by
  unfold syncI2cDeviceConfig at hsync
  rw [hdevice] at hsync
  split at hsync
  · rename_i device' policy hdevice' hpolicy
    cases hdevice'
    rw [hfind, Option.bind_some, hconfig] at hsync
    dsimp only at hsync
    have hset : configStoreSet store (mirroredConfig s deviceId values device policy config) = _ :=
      configStoreSet_found hfind hconfig rfl
    exact ⟨policy,hpolicy,Option.some.inj (hsync.symm.trans hset)⟩
  · cases hsync

/-- A capture that succeeded comes back at the next boot exactly when it fits. -/
theorem cache_capture_iff {ε : Type} (P : I2cPlatform ε) {s : I2cState} {store store' : ConfigStore} {deviceId i : ℕ}
    {device : I2cDevice} {config : I2cFileConfig} (hdevice : devicesGet s.devices deviceId = .ok device)
    (hfind : configStoreFindByName store device.name = some i) (hconfig : store[i]? = some config)
    (hvalid : i2cConfigValidate config = .ok) (hsync : runtimeI2cSyncDevice s store deviceId = some store')
    {boot : I2cWorld ε} (hboot : cacheInit store.length = .ok boot.state.cache) :
    (∀ reg, bootSeed P boot store' i reg =
        if cacheIsValid s.cache deviceId reg then some (s.cache.entries deviceId reg).value
        else bootSeed P boot store i reg) ↔
      CaptureFits s.cache deviceId device.regCount config.settings := by
  obtain ⟨policy,-,rfl⟩ := syncI2cDeviceConfig_store hsync hdevice hfind hconfig
  have hlen : config.settings.length ≤ i2cSettingsMax := (i2cConfigValidate_eq_ok.mp hvalid).shaped.2.2.2.2.2.2.2.2.2
  have hcount : device.regCount ≤ 256 := by
    unfold devicesGet at hdevice
    split at hdevice
    · cases hdevice
    · rename_i d hd
      cases hdevice
      exact (s.devices.valid _ (List.mem_of_getElem? hd)).2.2.2
  rw [← capture_seeds_iff hcount hlen]
  refine forall_congr' fun reg => ?_
  rw [bootSeed_eq P hboot hconfig, bootSeed_eq P (s := store.modify i _) (by rwa [List.length_modify])
    (by rw [List.getElem?_modify_eq, hconfig]; rfl)]
  rfl

/-! ## A device with one warm register -/

def warmConfig (settings : List I2cRule) : I2cFileConfig := ⟨⟨[97],0x20,4,64,0,[],[],.zero⟩,[],settings⟩

/-- A service for one such device with the value 3 in its first register. -/
def warmState : I2cState where
  devices := ⟨[⟨[97],0x20,4,64⟩],by decide,by decide⟩
  cache := ⟨fun _ reg => if reg = 0 then ⟨3,true,false,0⟩ else RegisterEntry.zero,1⟩
  policy := ⟨[⟨.whitelist,[],[]⟩]⟩
  presence _ := .unknown
  cacheSize := rfl
  policySize := rfl

def coldBoot : I2cWorld Unit := ⟨{ warmState with cache := ⟨fun _ _ => RegisterEntry.zero,1⟩ },(),[]⟩

def stillPlatform : I2cPlatform Unit := ⟨fun e => (0,e),fun e _ _ _ => ((.ok,0),e),fun e _ _ _ _ => (.ok,e)⟩

theorem cache_capture_iff_once :
    (∀ reg, bootSeed stillPlatform coldBoot [warmConfig [⟨0,3⟩]] 0 reg =
        if cacheIsValid warmState.cache 0 reg then some (warmState.cache.entries 0 reg).value
        else bootSeed stillPlatform coldBoot [warmConfig [⟨0,1⟩]] 0 reg) ↔
      CaptureFits warmState.cache 0 4 (warmConfig [⟨0,1⟩]).settings :=
  @cache_capture_iff Unit stillPlatform warmState [warmConfig [⟨0,1⟩]] _ 0 0 ⟨[97],0x20,4,64⟩ _ rfl rfl rfl (by decide) rfl
    coldBoot rfl

/-- A register set twice: the capture goes to the first setting, the second one comes back. -/
theorem cache_capture_shadowed :
    i2cConfigValidate (warmConfig [⟨0,1⟩,⟨0,2⟩]) = .ok ∧
      runtimeI2cSyncDevice warmState [warmConfig [⟨0,1⟩,⟨0,2⟩]] 0 = some [warmConfig [⟨0,3⟩,⟨0,2⟩]] ∧
      cacheIsValid warmState.cache 0 0 = true ∧ (warmState.cache.entries 0 0).value = 3 ∧
      bootSeed stillPlatform coldBoot [warmConfig [⟨0,3⟩,⟨0,2⟩]] 0 0 = some 2 :=
  ⟨by decide,rfl,by decide,by decide,by decide⟩

end Bvstk.I2c
