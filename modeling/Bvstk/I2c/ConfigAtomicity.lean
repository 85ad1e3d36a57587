import Bvstk.Config.I2cConfig
import Bvstk.I2c.ServiceEffect

/-! # Is a new I2C configuration applied whole or not at all?

A configuration is applied in three steps: the device table, then the cache of a device
that has moved, then the policy. The policy is checked last, when the first two steps are
done already.
-/
namespace Bvstk.I2c
open Config Events CallLog
variable {ε : Type}

/-! ## Invalidation -/

def RegisterEntry.invalid (e : RegisterEntry) : RegisterEntry :=
  { e with valid := false, seeded := false, updatedMs := 0 }

/-- The loop over the registers leaves all else alone. -/
structure Invalidated (deviceId : ℕ) (inside : UInt8 → Prop) (w w' : I2cWorld ε) : Prop where
  devices : w'.state.devices = w.state.devices
  policy : w'.state.policy = w.state.policy
  presence : w'.state.presence = w.state.presence
  count : w'.state.cache.deviceCount = w.state.cache.deviceCount
  gone : ∀ reg, inside reg → w'.state.cache.entries deviceId reg = (w.state.cache.entries deviceId reg).invalid
  kept : ∀ d reg, ¬(d = deviceId ∧ inside reg) → w'.state.cache.entries d reg = w.state.cache.entries d reg

theorem invalidated_cacheInvalidate {w : I2cWorld ε} {deviceId : ℕ} (hknown : deviceId < w.state.cache.deviceCount)
    (reg : UInt8) : Invalidated deviceId (· = reg) w (cacheInvalidate w deviceId reg).2 := by
  unfold cacheInvalidate
  rw [if_neg (Nat.not_le.mpr hknown)]
  refine ⟨rfl,rfl,rfl,rfl,?_,?_⟩
  · rintro r rfl
    change Function.update w.state.cache.entries deviceId (Function.update _ r _) deviceId r = _
    rw [Function.update_self, Function.update_self]
    rfl
  · intro d r hno
    change Function.update w.state.cache.entries deviceId (Function.update _ reg _) d r = _
    by_cases hd : d = deviceId
    · subst hd
      rw [Function.update_self, Function.update_of_ne fun hr => hno ⟨rfl,hr⟩]
    · rw [Function.update_of_ne hd]

theorem invalidated_from {deviceId : ℕ} (left : ℕ) : ∀ (r : ℕ) (w : I2cWorld ε), r + left ≤ 256 →
    deviceId < w.state.cache.deviceCount →
    Invalidated deviceId (fun reg => r ≤ reg.toNat ∧ reg.toNat < r + left) w (invalidateFrom deviceId left r w) := by
  induction left with
  | zero => exact fun r w _ _ => ⟨rfl,rfl,rfl,rfl,fun reg hreg => by omega,fun _ _ _ => rfl⟩
  | succ left ih =>
    intro r w hfits hknown
    have hone := invalidated_cacheInvalidate hknown (UInt8.ofNat r)
    have hrest := ih (r + 1) (cacheInvalidate w deviceId (UInt8.ofNat r)).2 (by omega) (hone.count.symm ▸ hknown)
    have hlt : r < 256 := by omega
    have hbyte : (UInt8.ofNat r).toNat = r := UInt8.toNat_ofNat_of_lt' hlt
    refine ⟨hrest.devices.trans hone.devices,hrest.policy.trans hone.policy,hrest.presence.trans hone.presence,
      hrest.count.trans hone.count,?_,?_⟩
    · intro reg hreg
      by_cases heq : reg = UInt8.ofNat r
      · have hkept := hrest.kept deviceId reg (by rw [heq, hbyte]; omega)
        exact hkept.trans (hone.gone reg heq)
      · have hne : reg.toNat ≠ r := fun hr => heq (UInt8.toNat_inj.mp (hr.trans hbyte.symm))
        have hgone := hrest.gone reg (by omega)
        exact hgone.trans (congrArg RegisterEntry.invalid (hone.kept deviceId reg fun hno => heq hno.2))
    · intro d reg hno
      have hkept := hrest.kept d reg fun hin => hno ⟨hin.1,by omega⟩
      refine hkept.trans (hone.kept d reg ?_)
      rintro ⟨rfl,rfl⟩
      exact hno ⟨rfl,by omega,by omega⟩

/-! ## What a configuration does -/

/-- The checks before anything is changed. -/
def configRefused (config : I2cDeviceConfig) : Prop :=
  config.name = [] ∨ config.regCount = 0 ∨ i2cMaxRegCount < config.regCount ∨ 0x7F < config.addr7b

instance (config : I2cDeviceConfig) : Decidable (configRefused config) := inferInstanceAs (Decidable (_ ∨ _))

/-- The part that moves to a new address or size: cache and presence, or neither. -/
structure Moved (deviceId : ℕ) (previous device : I2cDevice) (s s' : I2cState) : Prop where
  kept : previous.addr7b = device.addr7b → previous.regCount = device.regCount →
    s'.cache = s.cache ∧ s'.presence = s.presence
  dropped : (previous.addr7b ≠ device.addr7b ∨ previous.regCount ≠ device.regCount) →
    s'.presence = Function.update s.presence deviceId .unknown ∧
      (∀ reg, s'.cache.entries deviceId reg = (s.cache.entries deviceId reg).invalid) ∧
      ∀ d reg, d ≠ deviceId → s'.cache.entries d reg = s.cache.entries d reg

theorem deviceOf_valid {config : I2cDeviceConfig} (h : ¬configRefused config) : (deviceOf config).Valid := by
  rw [configRefused, not_or, not_or, not_or] at h
  obtain ⟨hname,hzero,hmax,haddr⟩ := h
  refine ⟨?_,UInt8.not_lt.mp haddr,hzero,Nat.not_lt.mp hmax⟩
  intro hempty
  have htake : config.name.take (i2cNameMax - 1) = [] := hempty
  cases hn : config.name with
  | nil => exact hname hn
  | cons c cs => simp [hn, i2cNameMax] at htake

theorem moved_dropOldDevice {w : I2cWorld ε} {deviceId : ℕ} (hknown : deviceId < w.state.cache.deviceCount)
    (previous device : I2cDevice) :
    (dropOldDevice w deviceId previous device).state.devices = w.state.devices ∧
      (dropOldDevice w deviceId previous device).state.policy = w.state.policy ∧
      Moved deviceId previous device w.state (dropOldDevice w deviceId previous device).state := by
  unfold dropOldDevice
  obtain ⟨left,hleft⟩ : ∃ n, n = i2cMaxRegCount := ⟨_,rfl⟩
  rw [← hleft]
  split
  · rename_i hmoved
    have hinvalid := @invalidated_from ε deviceId left 0
      { w with state := w.state.setPresence deviceId .unknown } (by simp [hleft, i2cMaxRegCount]) hknown
    refine ⟨hinvalid.devices,hinvalid.policy,?_,fun _ => ⟨hinvalid.presence,?_,?_⟩⟩
    · intro haddr hregs
      exact absurd hmoved (by simp [haddr, hregs])
    · intro reg
      have hlt := reg.toNat_lt
      have hcount : left = 256 := hleft
      exact hinvalid.gone reg ⟨Nat.zero_le _,by omega⟩
    · exact fun d reg hd => hinvalid.kept d reg fun h => hd h.1
  · rename_i hsame
    exact ⟨rfl,rfl,fun _ _ => ⟨rfl,rfl⟩,fun hmoved => absurd hmoved hsame⟩

theorem state_ext {s s' : I2cState} (hdevices : s.devices.items = s'.devices.items) (hcache : s.cache = s'.cache)
    (hpolicy : s.policy.items = s'.policy.items) (hpresence : s.presence = s'.presence) : s = s' := by
  obtain ⟨⟨items,_,_⟩,cache,⟨entries⟩,presence,_,_⟩ := s
  obtain ⟨⟨items',_,_⟩,cache',⟨entries'⟩,presence',_,_⟩ := s'
  dsimp only at hdevices hcache hpolicy hpresence
  subst hdevices hcache hpolicy hpresence
  rfl

theorem setDevice_ok {w : I2cWorld ε} {deviceId : ℕ} {item : I2cDevice} (hlt : deviceId < w.state.devices.count)
    (hvalid : item.Valid) : (setDevice w deviceId item).1 = .ok ∧
      (setDevice w deviceId item).2.state.devices.items = w.state.devices.items.set deviceId item := by
  unfold setDevice devicesSet
  simp only [Nat.not_le.mpr hlt, if_false, hvalid, dif_pos]
  exact ⟨trivial,rfl⟩

theorem set_of_getElem? {α : Type} {xs : List α} {i : ℕ} {x : α} (h : xs[i]? = some x) : xs.set i x = xs := by
  obtain ⟨hlt,rfl⟩ := List.getElem?_eq_some_iff.mp h
  exact List.set_getElem_self hlt

/-- The policy step changes only the entry of the device, and only to a possible one. -/
theorem applyPolicyConfig_none {w : I2cWorld ε} {deviceId : ℕ} {config : I2cDeviceConfig}
    (hlt : deviceId < w.state.devices.count) (hnone : policyEntryOf config = none) :
    (applyPolicyConfig w deviceId config).1 ≠ .ok ∧ (applyPolicyConfig w deviceId config).2.state = w.state := by
  obtain ⟨old,hold⟩ : ∃ old, w.state.policy.items[deviceId]? = some old :=
    ⟨_,List.getElem?_eq_getElem (w.state.policySize.symm ▸ hlt)⟩
  have hset : policySetConfig w.state.policy deviceId config = (.malformed,w.state.policy) := by
    simp only [policySetConfig, I2cPolicy.edit, hold, hnone, set_of_getElem? hold]
  unfold applyPolicyConfig setPolicy
  simp only [hset, ne_eq, reduceCtorEq, not_false_eq_true, if_false, true_and]

theorem applyPolicyConfig_some {w : I2cWorld ε} {deviceId : ℕ} {config : I2cDeviceConfig} {entry : I2cPolicyEntry}
    (hlt : deviceId < w.state.devices.count) (hentry : policyEntryOf config = some entry) :
    (applyPolicyConfig w deviceId config).1 = .ok ∧
      (applyPolicyConfig w deviceId config).2.state.devices = w.state.devices ∧
      (applyPolicyConfig w deviceId config).2.state.cache = w.state.cache ∧
      (applyPolicyConfig w deviceId config).2.state.presence = w.state.presence ∧
      (applyPolicyConfig w deviceId config).2.state.policy.items = w.state.policy.items.set deviceId entry := by
  obtain ⟨old,hold⟩ : ∃ old, w.state.policy.items[deviceId]? = some old :=
    ⟨_,List.getElem?_eq_getElem (w.state.policySize.symm ▸ hlt)⟩
  have hset : policySetConfig w.state.policy deviceId config =
      (.ok,⟨w.state.policy.items.set deviceId entry⟩) := by
    simp only [policySetConfig, I2cPolicy.edit, hold, hentry]
  unfold applyPolicyConfig setPolicy
  simp only [hset, if_true, call_state, true_and]

/-! ## Atomicity -/

/-- After an error everything is as before; after a success device and policy are those of
the configuration, and cache and presence are kept unless the device has moved. -/
def SetConfigAtomic (w : I2cWorld ε) (deviceId : ℕ) (config : I2cDeviceConfig) : Prop :=
  let out := masterServiceSetConfig w deviceId config
  (out.1 ≠ .ok → out.2.state = w.state) ∧
  (out.1 = .ok → ∃ previous entry, w.state.devices.items[deviceId]? = some previous ∧
    policyEntryOf config = some entry ∧
    out.2.state.devices.items = w.state.devices.items.set deviceId (deviceOf config) ∧
    out.2.state.policy.items = w.state.policy.items.set deviceId entry ∧
    Moved deviceId previous (deviceOf config) w.state out.2.state)

/-- The configuration passes the first checks, brings something new, and has an impossible
policy: only then is the device changed and an error returned. -/
def HalfApplied (s : I2cState) (deviceId : ℕ) (config : I2cDeviceConfig) : Prop :=
  ∃ previous, s.devices.items[deviceId]? = some previous ∧ ¬configRefused config ∧ policyEntryOf config = none ∧
    deviceOf config ≠ previous

theorem setConfig_refused {w : I2cWorld ε} {deviceId : ℕ} {config : I2cDeviceConfig}
    (h : (∀ previous, w.state.devices.items[deviceId]? ≠ some previous) ∨ configRefused config) :
    ∃ status, status ≠ .ok ∧ masterServiceSetConfig w deviceId config = (status,w) := by
  unfold masterServiceSetConfig
  cases hget : devicesGet w.state.devices deviceId with
  | error status =>
    obtain ⟨-,rfl⟩ := devicesGet_eq_error hget
    exact ⟨.notFound,by simp,rfl⟩
  | ok previous =>
    rcases h with hunknown | hrefused
    · exact absurd (devicesGet_eq_ok hget) (hunknown previous)
    · exact ⟨.malformed,by simp,if_pos hrefused⟩

/-- Past the first checks, only the policy is left to fail. -/
theorem setConfig_passed {w : I2cWorld ε} {deviceId : ℕ} {config : I2cDeviceConfig} {previous : I2cDevice}
    (hknown : w.state.devices.items[deviceId]? = some previous) (hpassed : ¬configRefused config) :
    ∃ w₂ : I2cWorld ε, masterServiceSetConfig w deviceId config = applyPolicyConfig w₂ deviceId config ∧
      w₂.state.devices.items = w.state.devices.items.set deviceId (deviceOf config) ∧
      w₂.state.policy = w.state.policy ∧ Moved deviceId previous (deviceOf config) w.state w₂.state := by
  have hget : devicesGet w.state.devices deviceId = .ok previous := by
    unfold devicesGet
    rw [hknown]
  have hlt : deviceId < w.state.devices.count := (List.getElem?_eq_some_iff.mp hknown).1
  obtain ⟨hok,hitems⟩ := setDevice_ok hlt (deviceOf_valid hpassed)
  obtain ⟨hdevices,hpolicy,hmoved⟩ := moved_dropOldDevice
    (w := (setDevice w deviceId (deviceOf config)).2) (w.state.cacheSize.symm ▸ hlt) previous (deviceOf config)
  refine ⟨_,?_,(congrArg I2cDevices.items hdevices).trans hitems,hpolicy,hmoved.kept,hmoved.dropped⟩
  unfold masterServiceSetConfig
  rw [hget]
  refine (if_neg hpassed).trans ?_
  dsimp only
  rw [if_neg (not_not.mpr hok)]

/-! ## Configurations that have passed the check -/

theorem passed_of_shaped {config : I2cFileConfig} (h : config.Shaped) : ¬configRefused config.toI2cDeviceConfig := by
  obtain ⟨hname,-,haddr,hzero,hmax,-⟩ := h
  rw [configRefused, not_or, not_or, not_or]
  exact ⟨hname,hzero,Nat.not_lt.mpr hmax,UInt8.not_lt.mpr haddr⟩

theorem policyEntryOf_shaped {config : I2cFileConfig} (h : config.Shaped) :
    ∃ mode, PolicyMode.ofCode config.policy = some mode ∧
      policyEntryOf config.toI2cDeviceConfig = some ⟨mode,config.whitelist,config.blacklist⟩ := by
  obtain ⟨-,-,-,-,-,-,hmode,hallow,hdeny,-⟩ := h
  obtain ⟨mode,hcode⟩ := Option.ne_none_iff_exists'.mp hmode
  refine ⟨mode,hcode,?_⟩
  unfold policyEntryOf
  rw [hcode]
  exact if_neg (by rw [not_or]; exact ⟨Nat.not_lt.mpr hallow,Nat.not_lt.mpr hdeny⟩)

/-- The service takes it for every device that it has. -/
theorem setConfig_shaped {w : I2cWorld ε} {deviceId : ℕ} {config : I2cFileConfig} {previous : I2cDevice}
    (hknown : w.state.devices.items[deviceId]? = some previous) (h : config.Shaped) :
    ∃ entry, policyEntryOf config.toI2cDeviceConfig = some entry ∧
      (masterServiceSetConfig w deviceId config.toI2cDeviceConfig).1 = .ok ∧
      (masterServiceSetConfig w deviceId config.toI2cDeviceConfig).2.state.devices.items =
        w.state.devices.items.set deviceId (deviceOf config.toI2cDeviceConfig) ∧
      (masterServiceSetConfig w deviceId config.toI2cDeviceConfig).2.state.policy.items =
        w.state.policy.items.set deviceId entry ∧
      Moved deviceId previous (deviceOf config.toI2cDeviceConfig) w.state
        (masterServiceSetConfig w deviceId config.toI2cDeviceConfig).2.state := by
  obtain ⟨mode,-,hentry⟩ := policyEntryOf_shaped h
  obtain ⟨w₂,hout,hitems,hpolicy,hmoved⟩ := setConfig_passed hknown (passed_of_shaped h)
  have hlt : deviceId < w₂.state.devices.count := by
    rw [I2cDevices.count, hitems, List.length_set]
    exact (List.getElem?_eq_some_iff.mp hknown).1
  obtain ⟨hok,hdevices',hcache',hpresence',hpolicy'⟩ := applyPolicyConfig_some hlt hentry
  rw [hout]
  refine ⟨_,hentry,hok,by rw [hdevices', hitems],by rw [hpolicy', hpolicy],?_,?_⟩
  · rw [hcache', hpresence']
    exact hmoved.kept
  · rw [hcache', hpresence']
    exact hmoved.dropped

theorem not_atomic_of_half {w : I2cWorld ε} {deviceId : ℕ} {config : I2cDeviceConfig}
    (h : HalfApplied w.state deviceId config) : ¬SetConfigAtomic w deviceId config := by
  obtain ⟨previous,hknown,hpassed,hentry,hnew⟩ := h
  obtain ⟨w₂,hout,hitems,-,-⟩ := setConfig_passed hknown hpassed
  have hlt : deviceId < w.state.devices.items.length := (List.getElem?_eq_some_iff.mp hknown).1
  have hlt₂ : deviceId < w₂.state.devices.count := by
    rw [I2cDevices.count, hitems, List.length_set]
    exact hlt
  obtain ⟨hne,hstate⟩ := applyPolicyConfig_none hlt₂ hentry
  rintro ⟨hsame,-⟩
  rw [hout] at hsame
  have hback := congrArg (fun s : I2cState => s.devices.items) (hstate.symm.trans (hsame hne))
  rw [hitems] at hback
  have hset : (w.state.devices.items.set deviceId (deviceOf config))[deviceId]? = some (deviceOf config) :=
    List.getElem?_set_self hlt
  rw [hback, hknown] at hset
  exact hnew (Option.some.inj hset).symm

theorem atomic_of_whole {w : I2cWorld ε} {deviceId : ℕ} {config : I2cDeviceConfig}
    (h : ¬HalfApplied w.state deviceId config) : SetConfigAtomic w deviceId config := by
  unfold SetConfigAtomic
  by_cases hrefused : (∀ previous, w.state.devices.items[deviceId]? ≠ some previous) ∨ configRefused config
  · obtain ⟨status,hstatus,hout⟩ := setConfig_refused hrefused
    rw [hout]
    exact ⟨fun _ => rfl,fun hok => absurd hok hstatus⟩
  · push Not at hrefused
    obtain ⟨⟨previous,hknown⟩,hpassed⟩ := hrefused
    obtain ⟨w₂,hout,hitems,hpolicy,hmoved⟩ := setConfig_passed hknown hpassed
    have hlt : deviceId < w₂.state.devices.count := by
      rw [I2cDevices.count, hitems, List.length_set]
      exact (List.getElem?_eq_some_iff.mp hknown).1
    rw [hout]
    cases hentry : policyEntryOf config with
    | some entry =>
      obtain ⟨hok,hdevices',hcache',hpresence',hpolicy'⟩ := applyPolicyConfig_some hlt hentry
      refine ⟨fun hne => absurd hok hne,fun _ => ⟨previous,entry,hknown,rfl,?_,?_,?_⟩⟩
      · rw [hdevices', hitems]
      · rw [hpolicy', hpolicy]
      · constructor
        · rw [hcache', hpresence']
          exact hmoved.kept
        · rw [hcache', hpresence']
          exact hmoved.dropped
    | none =>
      obtain ⟨hne,hstate⟩ := applyPolicyConfig_none hlt hentry
      have hsame : deviceOf config = previous := by
        by_contra hnew
        exact h ⟨previous,hknown,hpassed,hentry,hnew⟩
      obtain ⟨hcache,hpresence⟩ := hmoved.kept (by rw [hsame]) (by rw [hsame])
      have hitems' : w₂.state.devices.items = w.state.devices.items := by
        rw [hitems, hsame]
        exact set_of_getElem? hknown
      have hback := state_ext hitems' hcache (congrArg I2cPolicy.items hpolicy) hpresence
      exact ⟨fun _ => hstate.trans hback,fun hok => absurd hok hne⟩

/-- A new configuration is applied whole or not at all, except when the policy is the one
part that is impossible. -/
theorem setConfig_atomic_iff (w : I2cWorld ε) (deviceId : ℕ) (config : I2cDeviceConfig) :
    SetConfigAtomic w deviceId config ↔ ¬HalfApplied w.state deviceId config :=
  ⟨fun hatomic hhalf => not_atomic_of_half hhalf hatomic,atomic_of_whole⟩

/-- A service just started with one device, a new address for it and a mode that does not
exist. -/
theorem setConfig_half_applied : ∃ devices cache policy s,
    devicesInit [⟨[97],0x20,4,255⟩] = .ok devices ∧ cacheInit 1 = .ok cache ∧
    policyInit [⟨[97],0x20,4,255,0,[],[],.zero⟩] = .ok policy ∧ masterServiceInit devices cache policy = .ok s ∧
    ¬SetConfigAtomic (⟨s,(),[]⟩ : I2cWorld Unit) 0 ⟨[97],0x21,4,255,2,[],[],.zero⟩ := by
  refine ⟨⟨[⟨[97],0x20,4,255⟩],by decide,by decide⟩,⟨fun _ _ => .zero,1⟩,⟨[⟨.whitelist,[],[]⟩]⟩,
    ⟨_,_,_,fun _ => .unknown,rfl,rfl⟩,rfl,rfl,rfl,rfl,?_⟩
  exact not_atomic_of_half ⟨_,rfl,by decide,rfl,by decide⟩

end Bvstk.I2c
