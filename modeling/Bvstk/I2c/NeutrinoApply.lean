import Bvstk.I2c.ConfigAtomicity
import Bvstk.I2c.ConfigStore

/-! # Does the Neutrino runtime take a configuration back?

`apply_config_locked` of `bvstk_i2c_runtime.c` gives a configuration to the service, to the controller on the
slave side and to the store. When the controller cannot be programmed it gives the service the old one again,
which puts back the device and the policy, but not what was dropped on the way.
-/
namespace Bvstk.I2c
open Config Events CallLog
variable {ε : Type}

/-! ## The runtime -/

/-- `bvstk_neutrino_i2c_config_store_t`: what is stored has passed the check. -/
structure NeutrinoStore where
  items : List I2cFileConfig
  valid : ∀ c ∈ items, c.Valid

/-- The controller on the slave side, with the four words of its address list. -/
@[ext] structure SlaveHardware where
  initialized : Bool
  addressList : ℕ → UInt32

/-- `slaveTarget` is the target of the slave service, once that is initialised. -/
structure NeutrinoRuntime (ε : Type) where
  ready : Bool
  store : NeutrinoStore
  world : I2cWorld ε
  slaveTarget : Option ℕ
  hardware : SlaveHardware

/-- The stores to the controller and the files of the configurations; both may fail. -/
structure NeutrinoPlatform (ε : Type) where
  write32 : ε → (word : ℕ) → (value : UInt32) → Bool × ε
  save : ε → I2cFileConfig → Bool × ε

/-! ## The controller -/

/-- Word `i` of the address list for one address. -/
def addressWord (addr7b : UInt8) (i : ℕ) : UInt32 :=
  let addr := (addr7b &&& 0x7F).toNat
  if i = addr / 32 then 1 <<< UInt32.ofNat (addr % 32) else 0

/-- Stores the words from `i` on, up to the first that fails. -/
def writeAddressList (P : NeutrinoPlatform ε) (words : ℕ → UInt32) :
    (left i : ℕ) → (list : ℕ → UInt32) → ε → Status × (ℕ → UInt32) × ε
  | 0, _, list, env => (.ok,list,env)
  | left + 1, i, list, env =>
    let (stored,env) := P.write32 env i (words i)
    if stored = false then (.io,list,env)
    else writeAddressList P words left (i + 1) (Function.update list i (words i)) env

/-- `bvstk_i2c_slave_hw_set_address`. -/
def slaveHwSetAddress (P : NeutrinoPlatform ε) (x : NeutrinoRuntime ε) (addr7b : UInt8) : Status × NeutrinoRuntime ε :=
  if x.hardware.initialized = false then (.notReady,x)
  else
    let (status,list,env) := writeAddressList P (addressWord addr7b) 4 0 x.hardware.addressList x.world.env
    (status,{ x with world := { x.world with env := env }, hardware := { x.hardware with addressList := list } })

/-! ## The store -/

/-- An entry keeps the name of its file. -/
def storedAs (config old : I2cFileConfig) : I2cFileConfig :=
  { config with fileName := old.fileName.take (i2cFileNameMax - 1) }

theorem storedAs_valid {config : I2cFileConfig} (h : config.Valid) (old : I2cFileConfig) : (storedAs config old).Valid :=
  ⟨h.shaped,h.whitelist,h.blacklist,h.settings,h.profile⟩

/-- `bvstk_neutrino_i2c_config_store_update`. -/
def storeUpdate (store : NeutrinoStore) (deviceId : ℕ) (config : I2cFileConfig) : Option NeutrinoStore :=
  if h : deviceId < store.items.length ∧ i2cConfigValidate config = .ok then
    some
      { items := store.items.modify deviceId (storedAs config)
        valid := by
          intro c hc
          rw [List.modify_eq_set_get _ h.1] at hc
          rcases List.mem_or_eq_of_mem_set hc with hc | rfl
          · exact store.valid c hc
          · exact storedAs_valid (i2cConfigValidate_eq_ok.mp h.2) _ }
  else none

/-- `duplicate_identity`: another entry has the name or the address. -/
def duplicateIdentity (store : NeutrinoStore) (deviceId : ℕ) (config : I2cFileConfig) : Bool :=
  store.items.zipIdx.any fun entry =>
    entry.2 != deviceId && (sameIgnoringCase entry.1.name config.name || entry.1.addr7b == config.addr7b)

/-! ## A new configuration -/

/-- `BVSTK_CONFIG_APPLY_*`. -/
inductive ApplyResult where
  | failed | saved | notSaved
  deriving DecidableEq, Repr

/-- The service gets the old configuration again, whatever it answers. -/
def takeBack (x : NeutrinoRuntime ε) (deviceId : ℕ) (previous : I2cFileConfig) : NeutrinoRuntime ε :=
  { x with world := (masterServiceSetConfig x.world deviceId previous.toI2cDeviceConfig).2 }

/-- The service has the configuration: the controller and the store. -/
def applyProgrammed (P : NeutrinoPlatform ε) (x : NeutrinoRuntime ε) (deviceId : ℕ) (previous config : I2cFileConfig)
    (targetChanged saveToStorage : Bool) : ApplyResult × NeutrinoRuntime ε :=
  let (status,x) := if targetChanged then slaveHwSetAddress P x config.addr7b else (.ok,x)
  if status ≠ .ok then (.failed,takeBack x deviceId previous)
  else
    match storeUpdate x.store deviceId config with
    | none =>
      let x := takeBack x deviceId previous
      (.failed,if targetChanged then (slaveHwSetAddress P x previous.addr7b).2 else x)
    | some store =>
      let x := { x with store := store }
      if saveToStorage = false then (.saved,x)
      else
        let (written,env) := P.save x.world.env config
        (if written then .saved else .notSaved,{ x with world := { x.world with env := env } })

/-- The device is the target of the slave service, and its address is a new one. -/
def targetChanged (x : NeutrinoRuntime ε) (deviceId : ℕ) (previous config : I2cFileConfig) : Bool :=
  x.slaveTarget == some deviceId && previous.addr7b != config.addr7b

/-- `apply_config_locked`. -/
def applyConfigLocked (P : NeutrinoPlatform ε) (x : NeutrinoRuntime ε) (deviceId : ℕ) (config : I2cFileConfig)
    (saveToStorage : Bool) : ApplyResult × NeutrinoRuntime ε :=
  if x.ready = false ∨ i2cConfigValidate config ≠ .ok ∨ duplicateIdentity x.store deviceId config = true then (.failed,x)
  else
    match x.store.items[deviceId]? with
    | none => (.failed,x)
    | some previous =>
      let (status,w) := masterServiceSetConfig x.world deviceId config.toI2cDeviceConfig
      if status ≠ .ok then (.failed,{ x with world := w })
      else
        applyProgrammed P { x with world := w } deviceId previous config (targetChanged x deviceId previous config)
          saveToStorage

/-! ## What is promised -/

/-- The service has the configuration for the device. -/
def ServiceHolds (s : I2cState) (deviceId : ℕ) (config : I2cFileConfig) : Prop :=
  s.devices.items[deviceId]? = some (deviceOf config.toI2cDeviceConfig) ∧
    ∃ entry, policyEntryOf config.toI2cDeviceConfig = some entry ∧ s.policy.items[deviceId]? = some entry

/-- The address list has the one address. -/
def Programmed (hardware : SlaveHardware) (addr7b : UInt8) : Prop :=
  ∀ i < 4, hardware.addressList i = addressWord addr7b i

/-- After a failure all is as before; after a success the service, the controller of its target and the store
have the new configuration. -/
def AppliedOrTakenBack (P : NeutrinoPlatform ε) (x : NeutrinoRuntime ε) (deviceId : ℕ) (config : I2cFileConfig)
    (saveToStorage : Bool) : Prop :=
  let out := applyConfigLocked P x deviceId config saveToStorage
  (out.1 = .failed → out.2.world.state = x.world.state ∧ out.2.hardware = x.hardware ∧ out.2.store = x.store) ∧
  (out.1 ≠ .failed → ServiceHolds out.2.world.state deviceId config ∧
    (x.slaveTarget = some deviceId → Programmed out.2.hardware config.addr7b) ∧
    ∃ old, x.store.items[deviceId]? = some old ∧ out.2.store.items[deviceId]? = some (storedAs config old))

/-! ## When it is kept -/

/-- The checks are passed, and the service knows the device. -/
structure Taken (x : NeutrinoRuntime ε) (deviceId : ℕ) (previous config : I2cFileConfig) : Prop where
  ready : x.ready = true
  valid : config.Valid
  single : duplicateIdentity x.store deviceId config = false
  stored : x.store.items[deviceId]? = some previous
  known : deviceId < x.world.state.devices.count

/-- How many of the words from `i` on the controller takes. -/
def acceptedWords (P : NeutrinoPlatform ε) (words : ℕ → UInt32) : (left i : ℕ) → ε → ℕ
  | 0, _, _ => 0
  | left + 1, i, env =>
    let (stored,env) := P.write32 env i (words i)
    if stored = false then 0 else acceptedWords P words left (i + 1) env + 1

/-- How many words of the new address get into the controller. -/
def storedWords (P : NeutrinoPlatform ε) (x : NeutrinoRuntime ε) (addr7b : UInt8) : ℕ :=
  if x.hardware.initialized = false then 0 else acceptedWords P (addressWord addr7b) 4 0 x.world.env

/-- The service has what is stored and has heard nothing of the device, and the words that get into the
controller are there already. -/
structure NothingToLose (P : NeutrinoPlatform ε) (x : NeutrinoRuntime ε) (deviceId : ℕ) (previous config : I2cFileConfig) :
    Prop where
  service : ServiceHolds x.world.state deviceId previous
  presence : x.world.state.presence deviceId = .unknown
  cache : ∀ reg, (x.world.state.cache.entries deviceId reg).invalid = x.world.state.cache.entries deviceId reg
  words : ∀ i < storedWords P x config.addr7b, x.hardware.addressList i = addressWord config.addr7b i

/-- The condition: a configuration with a new address for the target either gets into the controller or has
nothing to lose, and under the old address the controller is programmed already. -/
def Keepable (P : NeutrinoPlatform ε) (x : NeutrinoRuntime ε) (deviceId : ℕ) (config : I2cFileConfig) : Prop :=
  ∀ previous, Taken x deviceId previous config →
    if targetChanged x deviceId previous config = true then
      storedWords P x config.addr7b = 4 ∨ NothingToLose P x deviceId previous config
    else x.slaveTarget = some deviceId → Programmed x.hardware config.addr7b

/-! ## The controller, as far as it is programmed -/

section Address
variable (P : NeutrinoPlatform ε)

theorem acceptedWords_le (words : ℕ → UInt32) (left i : ℕ) (env : ε) : acceptedWords P words left i env ≤ left := by
  induction left generalizing i env with
  | zero => exact Nat.le_refl 0
  | succ left ih =>
    rw [acceptedWords]
    dsimp only
    split
    · exact Nat.zero_le _
    · exact Nat.succ_le_succ (ih _ _)

/-- The words that are taken are in the list, and the loop ends well if all are. -/
theorem writeAddressList_spec (words : ℕ → UInt32) (left i : ℕ) (list : ℕ → UInt32) (env : ε) :
    ((writeAddressList P words left i list env).1 = .ok ↔ acceptedWords P words left i env = left) ∧
      ∀ j, (writeAddressList P words left i list env).2.1 j =
        if i ≤ j ∧ j < i + acceptedWords P words left i env then words j else list j := by
  induction left generalizing i list env with
  | zero => exact ⟨by simp [writeAddressList,acceptedWords],fun j => (if_neg (by simp [acceptedWords])).symm⟩
  | succ left ih =>
    by_cases hstored : (P.write32 env i (words i)).1 = false
    · have hwrite : writeAddressList P words (left + 1) i list env = (.io,list,(P.write32 env i (words i)).2) :=
        if_pos hstored
      have hcount : acceptedWords P words (left + 1) i env = 0 := if_pos hstored
      simp only [hwrite,hcount]
      exact ⟨by simp,fun j => (if_neg (by omega)).symm⟩
    · have hwrite : writeAddressList P words (left + 1) i list env =
          writeAddressList P words left (i + 1) (Function.update list i (words i)) (P.write32 env i (words i)).2 :=
        if_neg hstored
      have hcount : acceptedWords P words (left + 1) i env =
          acceptedWords P words left (i + 1) (P.write32 env i (words i)).2 + 1 := if_neg hstored
      obtain ⟨hok,hlist⟩ := ih (i + 1) (Function.update list i (words i)) (P.write32 env i (words i)).2
      simp only [hwrite,hcount]
      refine ⟨hok.trans (by omega),fun j => ?_⟩
      rw [hlist j]
      by_cases hj : j = i
      · subst hj
        rw [if_neg (by omega),if_pos (by omega),Function.update_self]
      · rw [Function.update_of_ne hj]
        exact if_congr (by omega) (Eq.refl _) (Eq.refl _)

/-- Programming changes the controller alone, by the words that get there. -/
theorem slaveHwSetAddress_spec (x : NeutrinoRuntime ε) (addr7b : UInt8) :
    ((slaveHwSetAddress P x addr7b).1 = .ok ↔ storedWords P x addr7b = 4) ∧
      (slaveHwSetAddress P x addr7b).2.store = x.store ∧
      (slaveHwSetAddress P x addr7b).2.world.state = x.world.state ∧
      (slaveHwSetAddress P x addr7b).2.hardware.initialized = x.hardware.initialized ∧
      ∀ j, (slaveHwSetAddress P x addr7b).2.hardware.addressList j =
        if j < storedWords P x addr7b then addressWord addr7b j else x.hardware.addressList j := by
  unfold slaveHwSetAddress storedWords
  by_cases hinit : x.hardware.initialized = false
  · rw [if_pos hinit,if_pos hinit]
    exact ⟨by simp,Eq.refl _,Eq.refl _,Eq.refl _,fun j => (if_neg (Nat.not_lt_zero j)).symm⟩
  · rw [if_neg hinit,if_neg hinit]
    obtain ⟨hok,hlist⟩ := writeAddressList_spec P (addressWord addr7b) 4 0 x.hardware.addressList x.world.env
    refine ⟨hok,Eq.refl _,Eq.refl _,Eq.refl _,fun j => (hlist j).trans ?_⟩
    exact if_congr (by omega) (Eq.refl _) (Eq.refl _)

end Address

/-! ## The service, there and back -/

section Service
variable {w : I2cWorld ε} {x y : NeutrinoRuntime ε} {deviceId : ℕ} {previous config : I2cFileConfig}

theorem invalidateFrom_env (deviceId left r : ℕ) (w : I2cWorld ε) : (invalidateFrom deviceId left r w).env = w.env := by
  induction left generalizing r w with
  | zero => exact Eq.refl _
  | succ left ih =>
    have hone : (cacheInvalidate w deviceId (UInt8.ofNat r)).2.env = w.env := by
      unfold cacheInvalidate
      split <;> exact Eq.refl _
    exact (ih _ _).trans hone

theorem dropOldDevice_env (w : I2cWorld ε) (deviceId : ℕ) (previous device : I2cDevice) :
    (dropOldDevice w deviceId previous device).env = w.env := by
  unfold dropOldDevice
  split
  · exact invalidateFrom_env _ _ _ _
  · exact Eq.refl _

theorem applyPolicyConfig_env (w : I2cWorld ε) (deviceId : ℕ) (config : I2cDeviceConfig) :
    (applyPolicyConfig w deviceId config).2.env = w.env := by
  unfold applyPolicyConfig
  dsimp only
  split <;> exact Eq.refl _

/-- A configuration is not a transfer. -/
theorem setConfig_env (w : I2cWorld ε) (deviceId : ℕ) (config : I2cDeviceConfig) :
    (masterServiceSetConfig w deviceId config).2.env = w.env := by
  unfold masterServiceSetConfig
  split
  · exact Eq.refl _
  · split
    · exact Eq.refl _
    · dsimp only
      split
      · exact Eq.refl _
      · exact (applyPolicyConfig_env _ _ _).trans (dropOldDevice_env _ _ _ _)

/-- The state of the service that has the old configuration again: the device has been dropped. -/
structure Dropped (s s' : I2cState) (deviceId : ℕ) (previous : I2cFileConfig) : Prop where
  devices : s'.devices.items = s.devices.items.set deviceId (deviceOf previous.toI2cDeviceConfig)
  policy : ∃ entry, policyEntryOf previous.toI2cDeviceConfig = some entry ∧
    s'.policy.items = s.policy.items.set deviceId entry
  presence : s'.presence = Function.update s.presence deviceId .unknown
  cache : ∀ reg, s'.cache.entries deviceId reg = (s.cache.entries deviceId reg).invalid
  others : ∀ d reg, d ≠ deviceId → s'.cache.entries d reg = s.cache.entries d reg

/-- Either way of taking a configuration is no more than a drop. -/
theorem Moved.dropped_after {live device last : I2cDevice} {s s' s'' : I2cState} (h : Moved deviceId live device s s')
    (h' : Moved deviceId device last s' s'') (haddr : device.addr7b ≠ last.addr7b) :
    s''.presence = Function.update s.presence deviceId .unknown ∧
      (∀ reg, s''.cache.entries deviceId reg = (s.cache.entries deviceId reg).invalid) ∧
      ∀ d reg, d ≠ deviceId → s''.cache.entries d reg = s.cache.entries d reg := by
  obtain ⟨hpresence,hgone,hkept⟩ := h'.dropped (Or.inl haddr)
  by_cases hsame : live.addr7b = device.addr7b ∧ live.regCount = device.regCount
  · obtain ⟨hcache,hbefore⟩ := h.kept hsame.1 hsame.2
    rw [hbefore] at hpresence
    rw [hcache] at hgone hkept
    exact ⟨hpresence,hgone,hkept⟩
  · obtain ⟨hbefore,hgone',hkept'⟩ := h.dropped (by
      by_cases ha : live.addr7b = device.addr7b
      · exact Or.inr fun hregs => hsame ⟨ha,hregs⟩
      · exact Or.inl ha)
    refine ⟨?_,fun reg => ?_,fun d reg hd => (hkept d reg hd).trans (hkept' d reg hd)⟩
    · rw [hpresence,hbefore,Function.update_idem]
    · rw [hgone reg,hgone' reg]
      exact Eq.refl _

theorem dropped_takeBack (hvalid : previous.Valid) (htaken : Taken x deviceId previous config)
    (haddr : previous.addr7b ≠ config.addr7b)
    (hy : y.world.state = (masterServiceSetConfig x.world deviceId config.toI2cDeviceConfig).2.state) :
    Dropped x.world.state (takeBack y deviceId previous).world.state deviceId previous := by
  have hknown := List.getElem?_eq_getElem (show deviceId < x.world.state.devices.items.length from htaken.known)
  obtain ⟨entry,-,-,hdevices,hpolicy,hmoved⟩ := setConfig_shaped hknown htaken.valid.shaped
  rw [← hy] at hdevices hpolicy hmoved
  have hnow : y.world.state.devices.items[deviceId]? = some (deviceOf config.toI2cDeviceConfig) := by
    rw [hdevices]
    exact List.getElem?_set_self htaken.known
  obtain ⟨entry',hentry,-,hdevices',hpolicy',hmoved'⟩ := setConfig_shaped hnow hvalid.shaped
  obtain ⟨hpresence,hcache,hothers⟩ := hmoved.dropped_after hmoved' (Ne.symm haddr)
  refine ⟨?_,⟨entry',hentry,?_⟩,hpresence,hcache,hothers⟩
  · rw [hdevices,List.set_set] at hdevices'
    exact hdevices'
  · rw [hpolicy,List.set_set] at hpolicy'
    exact hpolicy'

/-- After the drop all is as before only if there was nothing to drop. -/
theorem Dropped.same_iff {s s' : I2cState} (h : Dropped s s' deviceId previous) (hknown : deviceId < s.devices.count) :
    s' = s ↔ ServiceHolds s deviceId previous ∧ s.presence deviceId = .unknown ∧
      ∀ reg, (s.cache.entries deviceId reg).invalid = s.cache.entries deviceId reg := by
  obtain ⟨entry,hentry,hpolicy⟩ := h.policy
  have hlt : deviceId < s.policy.items.length := s.policySize.symm ▸ hknown
  constructor
  · rintro rfl
    refine ⟨⟨?_,entry,hentry,?_⟩,?_,fun reg => (h.cache reg).symm⟩
    · have hset := List.getElem?_set_self (a := deviceOf previous.toI2cDeviceConfig) hknown
      rwa [← h.devices] at hset
    · have hset := List.getElem?_set_self (a := entry) hlt
      rwa [← hpolicy] at hset
    · have hself := congrFun h.presence deviceId
      rwa [Function.update_self] at hself
  · rintro ⟨⟨hdevice,entry',hentry',hpolicy'⟩,hpresence,hcache⟩
    obtain rfl := Option.some.inj (hentry.symm.trans hentry')
    have hcount : s'.cache.deviceCount = s.cache.deviceCount := by
      rw [s'.cacheSize,s.cacheSize,I2cDevices.count,I2cDevices.count,h.devices,List.length_set]
    have hentries : s'.cache.entries = s.cache.entries := by
      funext d reg
      by_cases hd : d = deviceId
      · rw [hd,h.cache reg,hcache reg]
      · exact h.others d reg hd
    apply state_ext
    · rw [h.devices,set_of_getElem? hdevice]
    · cases hs : s'.cache with
      | mk entries count =>
        cases hs₀ : s.cache with
        | mk entries₀ count₀ =>
          rw [hs,hs₀] at hentries hcount
          rw [show entries = entries₀ from hentries,show count = count₀ from hcount]
    · rw [hpolicy,set_of_getElem? hpolicy']
    · rw [h.presence,← hpresence,Function.update_eq_self]

end Service

/-! ## The whole call -/

section Call
variable (P : NeutrinoPlatform ε) {x : NeutrinoRuntime ε} {deviceId : ℕ} {previous config : I2cFileConfig}

theorem storeUpdate_taken (h : Taken x deviceId previous config) :
    ∃ store, storeUpdate x.store deviceId config = some store ∧
      store.items[deviceId]? = some (storedAs config previous) := by
  have hlt : deviceId < x.store.items.length := (List.getElem?_eq_some_iff.mp h.stored).1
  refine ⟨_,dif_pos ⟨hlt,i2cConfigValidate_eq_ok.mpr h.valid⟩,?_⟩
  rw [List.getElem?_modify_eq,h.stored]
  exact Eq.refl _

/-- With the controller programmed, the call succeeds, saved or not. -/
theorem applyProgrammed_done (h : Taken x deviceId previous config) (y z : NeutrinoRuntime ε) (changed : Bool)
    (hstore : z.store = x.store)
    (hprogrammed : (if changed then slaveHwSetAddress P y config.addr7b else (.ok,y)) = (.ok,z)) (saveToStorage : Bool) :
    (applyProgrammed P y deviceId previous config changed saveToStorage).1 ≠ .failed ∧
      (applyProgrammed P y deviceId previous config changed saveToStorage).2.world.state = z.world.state ∧
      (applyProgrammed P y deviceId previous config changed saveToStorage).2.hardware = z.hardware ∧
      (applyProgrammed P y deviceId previous config changed saveToStorage).2.store.items[deviceId]? =
        some (storedAs config previous) := by
  obtain ⟨store,hupdate,hitem⟩ := storeUpdate_taken h
  rw [← hstore] at hupdate
  unfold applyProgrammed
  simp only [hprogrammed,hupdate,ne_eq,not_true_eq_false,if_false]
  by_cases hsave : saveToStorage = false
  · rw [if_pos hsave]
    exact ⟨by simp,Eq.refl _,Eq.refl _,hitem⟩
  · rw [if_neg hsave]
    refine ⟨?_,Eq.refl _,Eq.refl _,hitem⟩
    split <;> simp

/-- With the controller not programmed, the service gets the old configuration again. -/
theorem applyProgrammed_failed {y z : NeutrinoRuntime ε} {status : Status} (hfailed : status ≠ .ok)
    (hprogram : slaveHwSetAddress P y config.addr7b = (status,z)) (saveToStorage : Bool) :
    applyProgrammed P y deviceId previous config true saveToStorage = (.failed,takeBack z deviceId previous) := by
  unfold applyProgrammed
  simp only [if_true,hprogram]
  exact if_pos hfailed

theorem applyConfigLocked_refused (h : ∀ previous, ¬Taken x deviceId previous config) (saveToStorage : Bool) :
    applyConfigLocked P x deviceId config saveToStorage = (.failed,x) := by
  unfold applyConfigLocked
  by_cases hchecks : x.ready = false ∨ i2cConfigValidate config ≠ .ok ∨ duplicateIdentity x.store deviceId config = true
  · exact if_pos hchecks
  · rw [if_neg hchecks]
    obtain ⟨hready,hchecks⟩ := not_or.mp hchecks
    obtain ⟨hvalid,hsingle⟩ := not_or.mp hchecks
    cases hstored : x.store.items[deviceId]? with
    | none => exact Eq.refl _
    | some previous =>
      have hunknown : ∀ device, x.world.state.devices.items[deviceId]? ≠ some device := by
        intro device hdevice
        exact h previous ⟨Bool.of_not_eq_false hready,i2cConfigValidate_eq_ok.mp (not_not.mp hvalid),
          Bool.eq_false_iff.mpr hsingle,hstored,(List.getElem?_eq_some_iff.mp hdevice).1⟩
      obtain ⟨status,hstatus,hout⟩ := @setConfig_refused ε x.world deviceId config.toI2cDeviceConfig (Or.inl hunknown)
      dsimp only
      rw [hout]
      exact if_pos hstatus

theorem applyConfigLocked_taken (h : Taken x deviceId previous config) (saveToStorage : Bool) :
    applyConfigLocked P x deviceId config saveToStorage =
      applyProgrammed P
        { x with world := (masterServiceSetConfig x.world deviceId config.toI2cDeviceConfig).2 } deviceId previous config
        (targetChanged x deviceId previous config) saveToStorage := by
  have hknown := List.getElem?_eq_getElem (show deviceId < x.world.state.devices.items.length from h.known)
  obtain ⟨-,-,hok,-⟩ := setConfig_shaped hknown h.valid.shaped
  have hchecks : ¬(x.ready = false ∨ i2cConfigValidate config ≠ .ok ∨ duplicateIdentity x.store deviceId config = true) := by
    simp [h.ready,i2cConfigValidate_eq_ok.mpr h.valid,h.single]
  unfold applyConfigLocked
  rw [if_neg hchecks,h.stored]
  dsimp only
  rw [if_neg (not_not.mpr hok)]

/-- The service after the first step holds the configuration. -/
theorem serviceHolds_taken (h : Taken x deviceId previous config) :
    ServiceHolds (masterServiceSetConfig x.world deviceId config.toI2cDeviceConfig).2.state deviceId config := by
  have hknown := List.getElem?_eq_getElem (show deviceId < x.world.state.devices.items.length from h.known)
  obtain ⟨entry,hentry,-,hdevices,hpolicy,-⟩ := setConfig_shaped hknown h.valid.shaped
  have hlt : deviceId < x.world.state.policy.items.length := x.world.state.policySize.symm ▸ h.known
  refine ⟨?_,entry,hentry,?_⟩
  · rw [hdevices]
    exact List.getElem?_set_self h.known
  · rw [hpolicy]
    exact List.getElem?_set_self hlt

/-- The controller is as before if and only if what got there was there already. -/
theorem hardware_same_iff (y : NeutrinoRuntime ε) (addr7b : UInt8) :
    (slaveHwSetAddress P y addr7b).2.hardware = y.hardware ↔
      ∀ i < storedWords P y addr7b, y.hardware.addressList i = addressWord addr7b i := by
  obtain ⟨-,-,-,hinit,hlist⟩ := slaveHwSetAddress_spec P y addr7b
  constructor
  · intro hsame i hi
    have hword := hlist i
    rw [if_pos hi,hsame] at hword
    exact hword
  · intro hwords
    have hall : (slaveHwSetAddress P y addr7b).2.hardware.addressList = y.hardware.addressList := by
      funext j
      rw [hlist j]
      split
      · rename_i hj
        exact (hwords j hj).symm
      · exact Eq.refl _
    exact SlaveHardware.ext hinit hall

/-- With a new address for the target: after all four words the call succeeds, else it takes back. -/
theorem kept_iff_changed (h : Taken x deviceId previous config) (hchanged : targetChanged x deviceId previous config = true)
    (saveToStorage : Bool) :
    AppliedOrTakenBack P x deviceId config saveToStorage ↔
      storedWords P x config.addr7b = 4 ∨ NothingToLose P x deviceId previous config := by
  have hholds := serviceHolds_taken h
  have henv := setConfig_env x.world deviceId config.toI2cDeviceConfig
  rw [AppliedOrTakenBack,applyConfigLocked_taken P h,hchanged]
  generalize hy : ({ x with world := (masterServiceSetConfig x.world deviceId config.toI2cDeviceConfig).2 } :
    NeutrinoRuntime ε) = y
  have hwords : storedWords P y config.addr7b = storedWords P x config.addr7b := by
    rw [← hy,storedWords,storedWords,henv]
  have hstate : y.world.state = (masterServiceSetConfig x.world deviceId config.toI2cDeviceConfig).2.state := by rw [← hy]
  have hstore : y.store = x.store := by rw [← hy]
  have hhardware : y.hardware = x.hardware := by rw [← hy]
  obtain ⟨hok,hkeptStore,hkeptState,-,hlist⟩ := slaveHwSetAddress_spec P y config.addr7b
  rw [hwords] at hok hlist
  have hsame := hardware_same_iff P y config.addr7b
  rw [hwords,hhardware] at hsame
  generalize hprogram : slaveHwSetAddress P y config.addr7b = out at hok hkeptStore hkeptState hlist hsame
  obtain ⟨status,z⟩ := out
  dsimp only at hok hkeptStore hkeptState hlist hsame
  by_cases hstatus : status = .ok
  · obtain ⟨hdone,hlast,hcontroller,hstored⟩ := applyProgrammed_done P h y z true
      (hkeptStore.trans hstore) (by rw [if_pos (Eq.refl _),hprogram,hstatus]) saveToStorage
    have hall := hok.mp hstatus
    constructor
    · exact fun _ => Or.inl hall
    · intro _
      refine ⟨fun hfailed => absurd hfailed hdone,fun _ => ⟨?_,fun _ i hi => ?_,previous,h.stored,hstored⟩⟩
      · rw [hlast,hkeptState,hstate]
        exact hholds
      · rw [hcontroller,hlist i,hall,if_pos hi]
  · have haddr : previous.addr7b ≠ config.addr7b := by
      have hboth := Bool.and_eq_true_iff.mp hchanged
      simpa using hboth.2
    have hvalid : previous.Valid := x.store.valid previous (List.mem_of_getElem? h.stored)
    have hdropped := dropped_takeBack (y := z) hvalid h haddr (hkeptState.trans hstate)
    have hback := hdropped.same_iff h.known
    rw [applyProgrammed_failed P hstatus hprogram]
    constructor
    · rintro ⟨htaken,-⟩
      obtain ⟨hservice,hcontroller,-⟩ := htaken (Eq.refl _)
      obtain ⟨hdevice,hpresence,hcache⟩ := hback.mp hservice
      exact Or.inr ⟨hdevice,hpresence,hcache,hsame.mp hcontroller⟩
    · rintro (hall | hlose)
      · exact absurd (hok.mpr hall) hstatus
      · exact ⟨fun _ => ⟨hback.mpr ⟨hlose.service,hlose.presence,hlose.cache⟩,hsame.mpr hlose.words,
          hkeptStore.trans hstore⟩,fun hne => absurd (Eq.refl _) hne⟩

/-- For a call that gets past the checks. -/
theorem kept_iff_taken (h : Taken x deviceId previous config) (saveToStorage : Bool) :
    AppliedOrTakenBack P x deviceId config saveToStorage ↔
      if targetChanged x deviceId previous config = true then
        storedWords P x config.addr7b = 4 ∨ NothingToLose P x deviceId previous config
      else x.slaveTarget = some deviceId → Programmed x.hardware config.addr7b := by
  by_cases hchanged : targetChanged x deviceId previous config = true
  · rw [if_pos hchanged]
    exact kept_iff_changed P h hchanged saveToStorage
  · have hholds := serviceHolds_taken h
    rw [if_neg hchanged,AppliedOrTakenBack,applyConfigLocked_taken P h,Bool.eq_false_iff.mpr hchanged]
    generalize hy : ({ x with world := (masterServiceSetConfig x.world deviceId config.toI2cDeviceConfig).2 } :
      NeutrinoRuntime ε) = y
    have hstore : y.store = x.store := by rw [← hy]
    have hcontroller : y.hardware = x.hardware := by rw [← hy]
    have hservice : ServiceHolds y.world.state deviceId config := by
      rw [← hy]
      exact hholds
    obtain ⟨hdone,hstate,hhardware,hstored⟩ := applyProgrammed_done P h y y false hstore (if_neg Bool.false_ne_true)
      saveToStorage
    rw [hhardware,hstate,hcontroller]
    constructor
    · exact fun hkept => (hkept.2 hdone).2.1
    · exact fun hprogrammed => ⟨fun hfailed => absurd hfailed hdone,fun _ => ⟨hservice,hprogrammed,previous,h.stored,hstored⟩⟩

/-- The promise is kept exactly under the condition. -/
theorem apply_config_iff (x : NeutrinoRuntime ε) (deviceId : ℕ) (config : I2cFileConfig) (saveToStorage : Bool) :
    AppliedOrTakenBack P x deviceId config saveToStorage ↔ Keepable P x deviceId config := by
  by_cases htaken : ∃ previous, Taken x deviceId previous config
  · obtain ⟨previous,htaken⟩ := htaken
    rw [kept_iff_taken P htaken]
    constructor
    · intro hkept previous' htaken'
      obtain rfl := Option.some.inj (htaken.stored.symm.trans htaken'.stored)
      exact hkept
    · exact fun hkeepable => hkeepable previous htaken
  · have hrefused := not_exists.mp htaken
    constructor
    · exact fun _ previous htaken => absurd htaken (hrefused previous)
    · intro _
      rw [AppliedOrTakenBack,applyConfigLocked_refused P hrefused]
      exact ⟨fun _ => ⟨Eq.refl _,Eq.refl _,Eq.refl _⟩,fun hne => absurd (Eq.refl _) hne⟩

end Call

/-! ## A controller that takes no store -/

/-- A device named `a` with four registers. -/
def stagedConfig (addr7b : UInt8) : I2cFileConfig := ⟨⟨[97],addr7b,4,64,1,[],[],.zero⟩,[],[]⟩

theorem plainConfig_valid : (stagedConfig 0x20).Valid ∧ (stagedConfig 0x21).Valid :=
  ⟨i2cConfigValidate_eq_ok.mp (by decide),i2cConfigValidate_eq_ok.mp (by decide)⟩

/-- The device has answered a read of its first register with 7. -/
def readOnce : I2cState where
  devices := ⟨[deviceOf (stagedConfig 0x20).toI2cDeviceConfig],by decide,by decide⟩
  cache := RegisterCache.set ⟨fun _ _ => RegisterEntry.zero,1⟩ 0 0 ⟨7,true,false,5⟩
  policy := ⟨[⟨.blacklist,[],[]⟩]⟩
  presence := fun _ => .responding
  cacheSize := rfl
  policySize := rfl

def runningNeutrino : NeutrinoRuntime Unit where
  ready := true
  store := ⟨[stagedConfig 0x20],List.forall_mem_singleton.mpr plainConfig_valid.1⟩
  world := ⟨readOnce,(),[]⟩
  slaveTarget := some 0
  hardware := ⟨true,addressWord 0x20⟩

def deafController : NeutrinoPlatform Unit where
  write32 _ _ _ := (false,())
  save _ _ := (true,())

theorem apply_config_drops : ¬AppliedOrTakenBack deafController runningNeutrino 0 (stagedConfig 0x21) true := by
  have htaken : Taken runningNeutrino 0 (stagedConfig 0x20) (stagedConfig 0x21) :=
    ⟨Eq.refl _,plainConfig_valid.2,by decide,Eq.refl _,Nat.one_pos⟩
  rw [kept_iff_changed deafController htaken (by decide)]
  rintro (hall | hlose)
  · exact absurd hall (by decide)
  · exact absurd hlose.presence (by decide)

end Bvstk.I2c
