import Bvstk.Config.ProfileSaving
import Bvstk.Mdio.WorkerSchedule
import Bvstk.Surfaces.ControlSurfaces

/-! # Starting from files that were saved again

Device files that are loaded, saved as profiles and loaded at the next start give services with the
same devices, the same policies and the same values of registers.
-/
namespace Bvstk.Surfaces
open Config I2c Mdio CallLog

/-! ## I2C devices -/

/-- A configuration from a device file: a legacy one, or a profile. -/
def LoadedI2c (c : I2cFileConfig) : Prop := c.profile.version = 0 ∨ ∃ json, parseI2cProfile json = .ok c

/-- What is loaded from the file of a device after it was saved, or was left alone. -/
def ResavedI2c (c c' : I2cFileConfig) : Prop :=
  c' = c ∨ LoadedI2c c ∧ ∃ cap json, formatI2cProfile c cap = .ok json ∧ parseI2cProfile json = .ok c'

/-- A device that is as it was, for the services. -/
structure SameI2c (c c' : I2cFileConfig) : Prop where
  config : c'.toI2cDeviceConfig = { c.toI2cDeviceConfig with profile := c'.profile }
  settings : ∀ reg, lastSetting c'.settings reg = lastSetting c.settings reg

theorem ResavedI2c.same {c c' : I2cFileConfig} (h : ResavedI2c c c') : SameI2c c c' := by
  rcases h with rfl | ⟨hloaded,cap,json,hformat,hparse⟩
  · exact ⟨rfl,fun reg => rfl⟩
  · rcases hloaded with hversion | ⟨json₀,hload⟩
    · obtain ⟨c₁,hone,-,hsame,hsettings⟩ := migrate_i2c hversion hformat
      obtain rfl := Except.ok.inj (hone.symm.trans hparse)
      exact ⟨by rw [hsame],hsettings⟩
    · obtain ⟨c₁,hone,hsame,-⟩ := rewrite_i2c_profile hload hformat
      obtain rfl := Except.ok.inj (hone.symm.trans hparse)
      exact ⟨by rw [hsame],fun reg => by rw [hsame]⟩

section
variable {ε : Type} {store store' : ConfigStore}

theorem devicesInitFromConfig_same (h : List.Forall₂ SameI2c store store') :
    devicesInitFromConfig (store'.map (·.toI2cDeviceConfig)) = devicesInitFromConfig (store.map (·.toI2cDeviceConfig)) := by
  have hitems : (store'.map (·.toI2cDeviceConfig)).map (fun c => (⟨c.name.take (i2cNameMax - 1),c.addr7b,c.regCount,c.maxValueCode⟩ : I2cDevice)) =
      (store.map (·.toI2cDeviceConfig)).map fun c => ⟨c.name.take (i2cNameMax - 1),c.addr7b,c.regCount,c.maxValueCode⟩ := by
    induction h with
    | nil => rfl
    | cons hsame _ ih =>
      rw [List.map_cons, List.map_cons, List.map_cons, List.map_cons, ih, hsame.config]
  rw [devicesInitFromConfig, devicesInitFromConfig, hitems]

theorem policyInit_same (h : List.Forall₂ SameI2c store store') :
    policyInit (store'.map (·.toI2cDeviceConfig)) = policyInit (store.map (·.toI2cDeviceConfig)) := by
  have hitems : policyItems (store'.map (·.toI2cDeviceConfig)) = policyItems (store.map (·.toI2cDeviceConfig)) := by
    induction h with
    | nil => rfl
    | cons hsame _ ih =>
      rw [List.map_cons, List.map_cons, policyItems, policyItems, ih, hsame.config]
      rfl
  have hlength : (store'.map (·.toI2cDeviceConfig)).length = (store.map (·.toI2cDeviceConfig)).length := by
    rw [List.length_map, List.length_map, h.length_eq]
  rw [policyInit, policyInit, hitems, hlength]

variable (P : I2cPlatform ε)

theorem seedSettings_keeps (deviceId : ℕ) (w : I2cWorld ε) (settings : List I2cRule) :
    (seedSettings P deviceId w settings).state.devices = w.state.devices ∧
      (seedSettings P deviceId w settings).state.policy = w.state.policy := by
  induction settings generalizing w with
  | nil => exact ⟨rfl,rfl⟩
  | cons s settings ih =>
    obtain ⟨hdevices,hpolicy⟩ := ih (cacheSeed P w deviceId s.reg s.val).2
    have hseed : (cacheSeed P w deviceId s.reg s.val).2.state.devices = w.state.devices ∧
        (cacheSeed P w deviceId s.reg s.val).2.state.policy = w.state.policy := by
      unfold cacheSeed
      split
      · exact ⟨rfl,rfl⟩
      · exact ⟨rfl,rfl⟩
    exact ⟨hdevices.trans hseed.1,hpolicy.trans hseed.2⟩

theorem seedDevices_keeps (store : ConfigStore) (deviceId : ℕ) (w : I2cWorld ε) :
    (seedDevices P store deviceId w).state.devices = w.state.devices ∧
      (seedDevices P store deviceId w).state.policy = w.state.policy := by
  induction store generalizing deviceId w with
  | nil => exact ⟨rfl,rfl⟩
  | cons c store ih =>
    obtain ⟨hdevices,hpolicy⟩ := ih (deviceId + 1) (seedSettings P deviceId w c.settings)
    obtain ⟨hdevices',hpolicy'⟩ := seedSettings_keeps P deviceId w c.settings
    exact ⟨hdevices.trans hdevices',hpolicy.trans hpolicy'⟩

/-- Each register starts with the value it started with. -/
theorem seedDevices_same (h : List.Forall₂ SameI2c store store') {w : I2cWorld ε} (hcount : store.length ≤ w.state.cache.deviceCount)
    (deviceId : ℕ) (reg : UInt8) : cachedValue (seedDevices P store' 0 w).state.cache deviceId reg =
      cachedValue (seedDevices P store 0 w).state.cache deviceId reg := by
  have hcount' : 0 + store'.length ≤ w.state.cache.deviceCount := by
    rw [Nat.zero_add, ← h.length_eq]
    exact hcount
  have hlast : (store'[deviceId]?).bind (fun c => lastSetting c.settings reg) =
      (store[deviceId]?).bind fun c => lastSetting c.settings reg := by
    clear hcount hcount'
    induction h generalizing deviceId with
    | nil => rfl
    | cons hsame _ ih =>
      cases deviceId with
      | zero => exact hsame.settings reg
      | succ deviceId =>
        rw [List.getElem?_cons_succ, List.getElem?_cons_succ]
        exact ih deviceId
  rw [seedDevices_cached P store' 0 hcount', seedDevices_cached P store 0 (by rwa [Nat.zero_add]), if_pos (Nat.zero_le _),
    if_pos (Nat.zero_le _), Nat.sub_zero, hlast]

/-- Saving device files again does not change what the I2C service starts with. -/
theorem initializeI2c_resaved {env : ε} {rt : Runtime ε} (h : List.Forall₂ ResavedI2c store store')
    (hstart : initializeI2c P store env = some rt) : ∃ rt', initializeI2c P store' env = some rt' ∧
      rt'.world.state.devices = rt.world.state.devices ∧ rt'.world.state.policy = rt.world.state.policy ∧
      ∀ deviceId reg, cachedValue rt'.world.state.cache deviceId reg = cachedValue rt.world.state.cache deviceId reg := by
  have hsame : List.Forall₂ SameI2c store store' := h.imp fun _ _ => ResavedI2c.same
  have hlength : (store'.map (·.toI2cDeviceConfig)).length = (store.map (·.toI2cDeviceConfig)).length := by
    rw [List.length_map, List.length_map, h.length_eq]
  unfold initializeI2c at hstart ⊢
  dsimp only at hstart ⊢
  rw [devicesInitFromConfig_same hsame, policyInit_same hsame, hlength]
  split at hstart
  · rename_i devices cache policy hdevices hcache hpolicy
    split at hstart
    · rename_i s hs
      obtain rfl := Option.some.inj hstart
      have hcount : store.length ≤ s.cache.deviceCount := by
        unfold masterServiceInit at hs
        split at hs
        · obtain rfl := Except.ok.inj hs
          unfold cacheInit at hcache
          split at hcache
          · cases hcache
          · obtain rfl := Except.ok.inj hcache
            exact Nat.le_of_eq (List.length_map _).symm
        · cases hs
      obtain ⟨hdev,hpol⟩ := seedDevices_keeps P store 0 ⟨s,env,[]⟩
      obtain ⟨hdev',hpol'⟩ := seedDevices_keeps P store' 0 ⟨s,env,[]⟩
      exact ⟨_,rfl,hdev'.trans hdev.symm,hpol'.trans hpol.symm,fun deviceId reg => seedDevices_same P hsame hcount deviceId reg⟩
    · cases hstart
  · cases hstart

end

theorem resaved_sampleI2c : ResavedI2c sampleI2c (Profile.modern false sampleI2c.deviceProfile).toI2c := by
  have hcanonical := canonical_of_legacy_i2c rfl (by decide) (i2cConfigValidate_eq_ok.mp sampleI2c_valid)
  exact Or.inr ⟨Or.inl rfl,_,_,formatI2cProfile_sample,
    parseI2cProfile_format formatI2cProfile_sample hcanonical (Profile.encoded_modern rfl (by decide))⟩

theorem initializeI2c_resaved_sample : ∃ rt rt', initializeI2c stillPlatform [sampleI2c] () = some rt ∧
    initializeI2c stillPlatform [(Profile.modern false sampleI2c.deviceProfile).toI2c] () = some rt' ∧
    rt'.world.state.devices = rt.world.state.devices ∧ rt'.world.state.policy = rt.world.state.policy ∧
    ∀ deviceId reg, cachedValue rt'.world.state.cache deviceId reg = cachedValue rt.world.state.cache deviceId reg := by
  obtain ⟨rt,hrt⟩ := Option.isSome_iff_exists.mp (by decide : (initializeI2c stillPlatform [sampleI2c] ()).isSome = true)
  obtain ⟨rt',hrt',hall⟩ := initializeI2c_resaved stillPlatform (.cons resaved_sampleI2c .nil) hrt
  exact ⟨rt,rt',hrt,hrt',hall⟩

/-! ## PHYs -/

def LoadedMdio (c : MdioPhyConfig) : Prop := c.profile.version = 0 ∨ ∃ json, parseMdioProfile json = .ok c

def ResavedMdio (c c' : MdioPhyConfig) : Prop :=
  c' = c ∨ LoadedMdio c ∧ ∃ cap json, formatMdioProfile c cap = .ok json ∧ parseMdioProfile json = .ok c'

/-- A PHY that is as it was, for the service. -/
structure SameMdio (c c' : MdioPhyConfig) : Prop where
  config : ∃ fileName spare profile, c' = { c with fileName := fileName, settingsSpare := spare, profile := profile }
  valid : mdioConfigValidate c = .ok → mdioConfigValidate c' = .ok

theorem ResavedMdio.same {c c' : MdioPhyConfig} (h : ResavedMdio c c') : SameMdio c c' := by
  rcases h with rfl | ⟨hloaded,cap,json,hformat,hparse⟩
  · exact ⟨⟨_,_,_,rfl⟩,id⟩
  · have hvalid : mdioConfigValidate c' = .ok := (parseMdioProfile_accepted hparse).1
    rcases hloaded with hversion | ⟨json₀,hload⟩
    · obtain ⟨c₁,hone,-,hsame⟩ := migrate_mdio hversion hformat
      obtain rfl := Except.ok.inj (hone.symm.trans hparse)
      exact ⟨⟨_,_,_,hsame⟩,fun _ => hvalid⟩
    · obtain ⟨c₁,hone,hsame,-⟩ := rewrite_mdio_profile hload hformat
      obtain rfl := Except.ok.inj (hone.symm.trans hparse)
      exact ⟨⟨_,_,_,hsame⟩,fun _ => hvalid⟩

theorem SameMdio.allows {c c' : MdioPhyConfig} (h : SameMdio c c') (reg : UInt8) (value : UInt16) :
    mdioPolicyAllows c' reg value = mdioPolicyAllows c reg value := by
  obtain ⟨fileName,spare,profile,rfl⟩ := h.config
  rfl

section
variable {ε : Type} {devices devices' : List MdioPhyConfig}

theorem acceptable_same (h : List.Forall₂ SameMdio devices devices') (hacceptable : Acceptable devices) : Acceptable devices' := by
  obtain ⟨hcount,hvalid,halike⟩ := hacceptable
  have hkeys : ∀ {c c'}, SameMdio c c' → c'.phyAddr = c.phyAddr ∧ c'.name = c.name := fun hsame => by
    obtain ⟨fileName,spare,profile,rfl⟩ := hsame.config
    exact ⟨rfl,rfl⟩
  refine ⟨h.length_eq ▸ hcount,?_,?_⟩
  · clear hcount halike
    induction h with
    | nil => exact fun c hc => nomatch hc
    | cons hsame _ ih =>
      obtain ⟨hc,hrest⟩ := List.forall_mem_cons.mp hvalid
      exact List.forall_mem_cons.mpr ⟨hsame.valid hc,ih hrest⟩
  · clear hcount hvalid
    induction h with
    | nil => exact .nil
    | @cons c c' rest rest' hsame hrest ih =>
      obtain ⟨hc,hpairs⟩ := List.pairwise_cons.mp halike
      refine List.pairwise_cons.mpr ⟨fun d' hd' => ?_,ih hpairs⟩
      obtain ⟨d,hd,hdsame⟩ : ∃ d ∈ rest, SameMdio d d' := by
        clear ih hpairs hc halike
        induction hrest with
        | nil => cases hd'
        | cons hone _ ihrest =>
          rcases List.mem_cons.mp hd' with rfl | hd'
          · exact ⟨_,List.mem_cons_self,hone⟩
          · obtain ⟨d,hd,hsame⟩ := ihrest hd'
            exact ⟨d,List.mem_cons_of_mem _ hd,hsame⟩
      have hpair := hc d hd
      unfold alike at hpair ⊢
      rwa [(hkeys hsame).1, (hkeys hsame).2, (hkeys hdsame).1, (hkeys hdsame).2]

/-- The same service for other PHYs. -/
def onPhys (phys : MdioPhys) (w : MdioWorld ε) : MdioWorld ε :=
  ⟨{ w.state with devices := phys },w.env,w.calls.map fun c => ({ c.1 with devices := phys },c.2)⟩

variable (P : MdioPlatform ε) (phys : MdioPhys)

theorem seed_onPhys (d : ℕ) (phy : UInt8) (settings : List MdioSetting) (w : MdioWorld ε) :
    seed P d phy settings (onPhys phys w) = ((seed P d phy settings w).1,onPhys phys (seed P d phy settings w).2) := by
  induction settings generalizing w with
  | nil => rfl
  | cons v settings ih =>
    have hpublish : publish P (onPhys phys w) phy v.reg v.val =
        ((publish P w phy v.reg v.val).1,onPhys phys (publish P w phy v.reg v.val).2) := by
      simp [publish, onPhys, World.call]
    rw [seed, seed, hpublish]
    dsimp only
    split
    · rfl
    · refine Eq.trans ?_ (ih _)
      congr 1
      simp [onPhys, cacheChanged, World.call, World.modify, MdioState.setEntry]

theorem seedAll_onPhys (h : List.Forall₂ SameMdio devices devices') (d : ℕ) (w : MdioWorld ε) :
    seedAll P d devices' (onPhys phys w) = ((seedAll P d devices w).1,onPhys phys (seedAll P d devices w).2) := by
  induction h generalizing d w with
  | nil => rfl
  | @cons c c' rest rest' hsame hrest ih =>
    have hkeys : c'.phyAddr = c.phyAddr ∧ c'.settings = c.settings := by
      obtain ⟨fileName,spare,profile,rfl⟩ := hsame.config
      exact ⟨rfl,rfl⟩
    rw [seedAll, seedAll, hkeys.1, hkeys.2, seed_onPhys]
    dsimp only
    split
    · rfl
    · exact ih (d + 1) _

/-- Saving device files again does not change what the MDIO service starts with: the slave is told
the same values, and each PHY has the same cache and the same policy. -/
theorem serviceInit_resaved {prepareSlave : ε → Status × ε} {env : ε} {w : MdioWorld ε} (h : List.Forall₂ ResavedMdio devices devices')
    (hstart : serviceInit P prepareSlave devices env = .ok w) : ∃ w', serviceInit P prepareSlave devices' env = .ok w' ∧
      w'.env = w.env ∧ w'.calls.map Prod.snd = w.calls.map Prod.snd ∧ w'.state = { w.state with devices := w'.state.devices } ∧
      List.Forall₂ (fun c c' => ∀ reg value, mdioPolicyAllows c' reg value = mdioPolicyAllows c reg value) w.state.devices.items
        w'.state.devices.items := by
  have hsame : List.Forall₂ SameMdio devices devices' := h.imp fun _ _ => ResavedMdio.same
  unfold serviceInit at hstart ⊢
  split at hstart
  · rename_i hacceptable
    have hacceptable' := acceptable_same hsame hacceptable
    rw [dif_pos hacceptable']
    dsimp only at hstart ⊢
    split at hstart
    · cases hstart
    · rename_i hprepare
      rw [if_neg hprepare]
      have hzeroed : (MdioState.zeroed hacceptable'.phys).start (prepareSlave env).2 =
          onPhys hacceptable'.phys ((MdioState.zeroed hacceptable.phys).start (prepareSlave env).2) := rfl
      rw [hzeroed, seedAll_onPhys P _ hsame]
      dsimp only
      split at hstart
      · cases hstart
      · rename_i hseeded
        obtain rfl := Except.ok.inj hstart
        rw [if_neg hseeded]
        have hphys : (seedAll P 0 devices ((MdioState.zeroed hacceptable.phys).start (prepareSlave env).2)).2.state.devices =
            hacceptable.phys := (steady_seedAll P 0 devices _).devices
        refine ⟨_,rfl,rfl,?_,rfl,?_⟩
        · simp [onPhys, Function.comp_def]
        · rw [hphys]
          exact hsame.imp fun _ _ h => h.allows
  · cases hstart

end

/-- A bus that does everything at once. -/
def stillBus : MdioPlatform Unit where
  lock := fun e => (.ok,e)
  nowMs := fun e => (0,e)
  read := fun e _ _ _ => ((.ok,0),e)
  write := fun e _ _ _ _ _ => (.ok,e)
  takeWrite := fun e _ _ => (.error .notFound,e)
  publish := fun e _ _ _ => (.ok,e)
  ackSlave := fun e => (.ok,e)

theorem resaved_samplePhy : ResavedMdio samplePhy (Profile.modern true samplePhy.deviceProfile).toMdio := by
  have hcanonical := canonical_of_legacy_mdio rfl (by decide) (mdioConfigValidate_eq_ok.mp samplePhy_valid)
  exact Or.inr ⟨Or.inl rfl,_,_,formatMdioProfile_sample,
    parseMdioProfile_format formatMdioProfile_sample hcanonical (Profile.encoded_modern rfl (by decide))⟩

theorem serviceInit_resaved_sample : ∃ w w', serviceInit stillBus (fun e => (.ok,e)) [samplePhy] () = .ok w ∧
    serviceInit stillBus (fun e => (.ok,e)) [(Profile.modern true samplePhy.deviceProfile).toMdio] () = .ok w' ∧
    w'.env = w.env ∧ w'.calls.map Prod.snd = w.calls.map Prod.snd ∧ w'.state = { w.state with devices := w'.state.devices } ∧
    List.Forall₂ (fun c c' => ∀ reg value, mdioPolicyAllows c' reg value = mdioPolicyAllows c reg value) w.state.devices.items
      w'.state.devices.items := by
  obtain ⟨w,hw⟩ : ∃ w, serviceInit stillBus (fun e => (.ok,e)) [samplePhy] () = .ok w := ⟨_,rfl⟩
  obtain ⟨w',hw',hall⟩ := serviceInit_resaved stillBus (.cons resaved_samplePhy .nil) hw
  exact ⟨w,w',hw,hw',hall⟩

end Bvstk.Surfaces
