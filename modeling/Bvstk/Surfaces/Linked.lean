import Bvstk.Console.I2cAgreement
import Bvstk.Surfaces.ControlSurfaces

/-! # How the service and the store belong together

Both have the same devices in the same order, and the parts of a device that no operation
changes are the same. What an operation does is said once here, for a pair like that.
-/
namespace Bvstk.Surfaces
open Config Events I2c Console Web RuleSets CallLog

variable {ε : Type}

/-! ## Lists -/

theorem map_modify_of_same {α β : Type} {xs : List α} {i : ℕ} {f : α → α} {g : α → β}
    (h : ∀ a, xs[i]? = some a → g (f a) = g a) : (xs.modify i f).map g = xs.map g := by
  apply List.ext_getElem?
  intro j
  rw [List.getElem?_map, List.getElem?_map, List.getElem?_modify]
  split_ifs with hij
  · subst hij
    cases ha : xs[i]? with
    | none => rfl
    | some a => exact congrArg some (h a ha)
  · simp

theorem map_set_of_same {α β : Type} {xs : List α} {i : ℕ} {a b : α} {g : α → β} (ha : xs[i]? = some a)
    (h : g b = g a) : (xs.set i b).map g = xs.map g := by
  rw [List.map_set, h]
  exact set_of_getElem? (by rw [List.getElem?_map, ha]; rfl)

/-- A key that occurs once is found where it is. -/
theorem findIdx?_of_nodup {α β : Type} {xs : List α} {g : α → β} (hnodup : (xs.map g).Nodup) {i : ℕ} {a : α}
    (ha : xs[i]? = some a) {p : α → Bool} (hp : ∀ c, p c = true ↔ g c = g a) : xs.findIdx? p = some i := by
  obtain ⟨hlt,rfl⟩ := List.getElem?_eq_some_iff.mp ha
  rw [List.findIdx?_eq_some_iff_getElem]
  refine ⟨hlt,(hp _).mpr rfl,fun j hji hsame => ?_⟩
  have hkeys : (xs.map g)[i]? = (xs.map g)[j]? := by
    rw [List.getElem?_map, List.getElem?_map, List.getElem?_eq_getElem hlt, List.getElem?_eq_getElem (hji.trans hlt)]
    exact congrArg some ((hp _).mp hsame).symm
  have hij : i = j := (List.getElem?_inj (by rwa [List.length_map]) hnodup).mp hkeys
  omega

/-! ## The invariant -/

/-- Rules that fit a device of this size. -/
def RulesFit (regCount : ℕ) (maxValueCode : UInt8) (rules : List I2cRule) : Prop :=
  rules.length ≤ i2cRulesMax ∧ ∀ r ∈ rules, r.reg.toNat < regCount ∧ r.val ≤ maxValueCode

structure EntryFits (device : I2cDevice) (entry : I2cPolicyEntry) : Prop where
  whitelist : RulesFit device.regCount device.maxValueCode entry.whitelist
  blacklist : RulesFit device.regCount device.maxValueCode entry.blacklist

/-- What no operation changes in a device; its name may come back in another case. -/
def liveShape (d : I2cDevice) : Name × ℕ × UInt8 := (d.name.map toLower,d.regCount,d.maxValueCode)
def storedShape (c : I2cFileConfig) : Name × ℕ × UInt8 := (c.name.map toLower,c.regCount,c.maxValueCode)

/-- All policies in force fit their devices. -/
def LivesFit (s : I2cState) : Prop :=
  ∀ (i : ℕ) device entry, s.devices.items[i]? = some device → s.policy.items[i]? = some entry → EntryFits device entry

/-- The same devices, with configurations of which only the rules may be out of range. -/
structure Paired (x : Runtime ε) : Prop where
  names : (x.store.map fun c => c.name.map toLower).Nodup
  shape : x.world.state.devices.items.map liveShape = x.store.map storedShape
  stored : ∀ c ∈ x.store, c.Shaped

structure Linked (x : Runtime ε) : Prop where
  names : (x.store.map fun c => c.name.map toLower).Nodup
  shape : x.world.state.devices.items.map liveShape = x.store.map storedShape
  live : LivesFit x.world.state
  stored : ∀ c ∈ x.store, c.Valid

section
variable {x : Runtime ε} {i : ℕ} {stored : I2cFileConfig} {device : I2cDevice}

theorem Linked.paired (hx : Linked x) : Paired x := ⟨hx.names,hx.shape,fun c hc => (hx.stored c hc).shaped⟩

theorem Paired.deviceAt (hx : Paired x) (hstored : x.store[i]? = some stored) :
    ∃ device, x.world.state.devices.items[i]? = some device ∧ liveShape device = storedShape stored := by
  have hshape := congrArg (·[i]?) hx.shape
  simp only [List.getElem?_map, hstored, Option.map_some] at hshape
  exact Option.map_eq_some_iff.mp hshape

theorem Linked.storedAt (hx : Linked x) (hdevice : x.world.state.devices.items[i]? = some device) :
    ∃ stored, x.store[i]? = some stored ∧ liveShape device = storedShape stored := by
  have hshape := congrArg (·[i]?) hx.shape
  simp only [List.getElem?_map, hdevice, Option.map_some] at hshape
  obtain ⟨stored,hstored,hsame⟩ := Option.map_eq_some_iff.mp hshape.symm
  exact ⟨stored,hstored,hsame.symm⟩

theorem Linked.validAt (hx : Linked x) (hstored : x.store[i]? = some stored) : stored.Valid :=
  hx.stored stored (List.mem_of_getElem? hstored)

theorem Paired.shapedAt (hx : Paired x) (hstored : x.store[i]? = some stored) : stored.Shaped :=
  hx.stored stored (List.mem_of_getElem? hstored)

theorem Paired.liveNames (hx : Paired x) : (x.world.state.devices.items.map fun d => d.name.map toLower).Nodup := by
  have hnames := congrArg (List.map fun p : Name × ℕ × UInt8 => p.1) hx.shape
  rw [List.map_map, List.map_map] at hnames
  change (x.world.state.devices.items.map ((fun p : Name × ℕ × UInt8 => p.1) ∘ liveShape)).Nodup
  rw [hnames]
  exact hx.names

/-- A stored name, in whatever case, leads to its entry and to the device of the same number. -/
theorem Paired.findByName (hx : Paired x) (hstored : x.store[i]? = some stored) {name : Name}
    (hname : name.map toLower = stored.name.map toLower) :
    configStoreFindByName x.store name = some i ∧ masterServiceFindByName x.world.state name = some i := by
  have hnil : name ≠ [] := by
    rintro rfl
    rw [List.map_nil, eq_comm, List.map_eq_nil_iff] at hname
    exact (hx.shapedAt hstored).1 hname
  obtain ⟨device,hdevice,hshape⟩ := hx.deviceAt hstored
  obtain ⟨hsame,-⟩ := Prod.mk.inj hshape
  refine ⟨(if_neg hnil).trans ?_,(if_neg hnil).trans ?_⟩
  · exact findIdx?_of_nodup hx.names hstored fun c => by rw [sameIgnoringCase_iff, hname]
  · exact findIdx?_of_nodup hx.liveNames hdevice fun d => by rw [sameIgnoringCase_iff, hname, hsame]

/-- Whatever is found by a name or an address is in the store. -/
theorem selectDevice_stored {token : Word} {id : ℕ} {config : I2cFileConfig} (h : selectDevice x token = some (id,config)) :
    ∃ i : ℕ, x.store[i]? = some config := by
  have hfound : ∀ {found : Option ℕ}, (found.bind (x.store[·]?)).map (fun c => (id,c)) = some (id,config) →
      ∃ i : ℕ, x.store[i]? = some config := by
    intro found hmap
    obtain ⟨c,hc,hpair⟩ := Option.map_eq_some_iff.mp hmap
    obtain ⟨i,-,hi⟩ := Option.bind_eq_some_iff.mp hc
    cases hpair
    exact ⟨i,hi⟩
  unfold selectDevice at h
  split at h
  · obtain ⟨c,hc,hpair⟩ := Option.map_eq_some_iff.mp h
    cases hpair
    exact hfound (by rw [hc]; rfl)
  · split at h
    · cases h
    · split at h
      · cases h
      · obtain ⟨c,hc,hpair⟩ := Option.map_eq_some_iff.mp h
        cases hpair
        exact hfound (by rw [hc]; rfl)

end

/-! ## Edits of rules -/

section
variable {regCount : ℕ} {maxValueCode : UInt8} {rules : List I2cRule}

theorem RulesFit.nil : RulesFit regCount maxValueCode [] := ⟨Nat.zero_le _,by simp⟩

theorem RulesFit.remove (h : RulesFit regCount maxValueCode rules) (reg value : UInt8) :
    RulesFit regCount maxValueCode (removeRule rules reg value) :=
  ⟨length_removeRule h.1 reg value,fun r hr => h.2 r (List.mem_filter.mp hr).1⟩

theorem RulesFit.add (h : RulesFit regCount maxValueCode rules) {reg value : UInt8} (hreg : reg.toNat < regCount)
    (hvalue : value ≤ maxValueCode) : RulesFit regCount maxValueCode (addRule rules reg value).2 := by
  refine ⟨length_addRule h.1 reg value,fun r hr => ?_⟩
  rcases addRule_cases rules reg value with ⟨hadd,-⟩ | hadd | ⟨hadd,-⟩
  · exact h.2 r (by rwa [hadd] at hr)
  · exact h.2 r (by rwa [hadd] at hr)
  · rw [hadd, List.mem_append, List.mem_singleton] at hr
    rcases hr with hr | rfl
    · exact h.2 r hr
    · exact ⟨hreg,hvalue⟩

end

/-- An edit of the entry of one device. -/
theorem livesFit_edit {w : I2cWorld ε} {deviceId : ℕ} {f : I2cPolicyEntry → Status × I2cPolicyEntry}
    (hw : LivesFit w.state) (hf : ∀ device entry, w.state.devices.items[deviceId]? = some device → EntryFits device entry →
      EntryFits device (f entry).2) :
    LivesFit (setPolicy w (w.state.policy.edit deviceId f) (edit_length _ _ _)).2.state := by
  intro i device entry hdevice hentry
  change (w.state.policy.edit deviceId f).2.items[i]? = some entry at hentry
  unfold I2cPolicy.edit at hentry
  split at hentry
  · exact hw i device entry hdevice hentry
  · rename_i old hold
    by_cases hi : deviceId = i
    · subst hi
      rw [List.getElem?_set_self (List.getElem?_eq_some_iff.mp hold).1, Option.some.injEq] at hentry
      subst hentry
      exact hf device old hdevice (hw deviceId device old hdevice hold)
    · rw [List.getElem?_set_ne hi] at hentry
      exact hw i device entry hdevice hentry

theorem run_devices (w : I2cWorld ε) (deviceId : ℕ) (call : RuleCall) :
    (call.run w deviceId).2.state.devices = w.state.devices := by
  cases call with
  | setPolicy mode =>
    simp only [RuleCall.run, masterServiceSetPolicy]
    split_ifs <;> rfl
  | allow reg value =>
    simp only [RuleCall.run, masterServiceRuleAllow]
    split <;> rfl
  | deny reg value =>
    simp only [RuleCall.run, masterServiceRuleDeny]
    split <;> rfl
  | clear reg value =>
    simp only [RuleCall.run, masterServiceRuleClear]
    split_ifs <;> rfl
  | remove list reg value =>
    simp only [RuleCall.run, masterServiceRuleRemove]
    split
    · rfl
    · split_ifs <;> rfl
  | clearList list =>
    simp only [RuleCall.run, masterServiceRuleClearList]
    split_ifs <;> rfl

theorem run_fits {w : I2cWorld ε} (hw : LivesFit w.state) (deviceId : ℕ) (call : RuleCall) :
    LivesFit (call.run w deviceId).2.state := by
  cases call with
  | setPolicy mode =>
    simp only [RuleCall.run, masterServiceSetPolicy]
    split_ifs
    · exact hw
    · refine livesFit_edit hw fun device entry _ hentry => ?_
      split
      · exact hentry
      · exact ⟨hentry.whitelist,hentry.blacklist⟩
  | allow reg value =>
    simp only [RuleCall.run, masterServiceRuleAllow]
    split
    · exact hw
    · rename_i device hget
      refine livesFit_edit hw fun device' entry hdevice hentry => ?_
      obtain rfl := Option.some.inj ((devicesGet_eq_ok hget).symm.trans hdevice)
      split_ifs with hvalid
      · exact hentry
      · simp only [ruleValid, decide_eq_false_iff_not, not_not] at hvalid
        exact ⟨hentry.whitelist.add hvalid.1 hvalid.2,hentry.blacklist⟩
  | deny reg value =>
    simp only [RuleCall.run, masterServiceRuleDeny]
    split
    · exact hw
    · rename_i device hget
      refine livesFit_edit hw fun device' entry hdevice hentry => ?_
      obtain rfl := Option.some.inj ((devicesGet_eq_ok hget).symm.trans hdevice)
      split_ifs with hvalid
      · exact hentry
      · simp only [ruleValid, decide_eq_false_iff_not, not_not] at hvalid
        exact ⟨hentry.whitelist,hentry.blacklist.add hvalid.1 hvalid.2⟩
  | clear reg value =>
    simp only [RuleCall.run, masterServiceRuleClear]
    split_ifs
    · exact hw
    · exact livesFit_edit hw fun device entry _ hentry =>
        ⟨hentry.whitelist.remove reg value,hentry.blacklist.remove reg value⟩
  | remove list reg value =>
    simp only [RuleCall.run, masterServiceRuleRemove]
    split
    · exact hw
    · split_ifs
      · exact hw
      · exact hw
      · refine livesFit_edit hw fun device entry _ hentry => ?_
        split
        · exact hentry
        · split_ifs
          · exact hentry
          · exact ⟨hentry.whitelist.remove reg value,hentry.blacklist⟩
        · split_ifs
          · exact hentry
          · exact ⟨hentry.whitelist,hentry.blacklist.remove reg value⟩
  | clearList list =>
    simp only [RuleCall.run, masterServiceRuleClearList]
    split_ifs
    · exact hw
    · refine livesFit_edit hw fun device entry _ hentry => ?_
      split
      · exact hentry
      · exact ⟨RulesFit.nil,hentry.blacklist⟩
      · exact ⟨hentry.whitelist,RulesFit.nil⟩

/-! ## Operations on linked pairs -/

section
variable {x : Runtime ε} {i : ℕ} {stored config : I2cFileConfig}

/-- The devices and policies may change where they still fit. -/
theorem Linked.withWorld (hx : Linked x) {w : I2cWorld ε} (hdevices : w.state.devices = x.world.state.devices)
    (hlive : LivesFit w.state) : Linked { x with world := w } :=
  ⟨hx.names,by rw [hdevices]; exact hx.shape,hlive,hx.stored⟩

theorem LivesFit.congr {s s' : I2cState} (h : LivesFit s) (hdevices : s'.devices = s.devices) (hpolicy : s'.policy = s.policy) :
    LivesFit s' := by
  unfold LivesFit
  rw [hdevices, hpolicy]
  exact h

theorem linked_run (hx : Linked x) (deviceId : ℕ) (call : RuleCall) :
    Linked { x with world := (call.run x.world deviceId).2 } :=
  hx.withWorld (run_devices x.world deviceId call) (run_fits hx.live deviceId call)

theorem linked_write (P : I2cPlatform ε) (hx : Linked x) (deviceId : ℕ) (reg value : UInt8) (source : EventSource)
    (timeoutMs : ℕ) : Linked { x with world := (masterServiceWrite P x.world deviceId reg value source timeoutMs).2 } := by
  have heffect := write_effect P x.world deviceId reg value source timeoutMs
  generalize masterServiceWrite P x.world deviceId reg value source timeoutMs = out at heffect ⊢
  cases heffect with
  | refused _ _ hstate _ => exact hx.withWorld (by rw [hstate]) (by rw [hstate]; exact hx.live)
  | forwarded _ h => exact hx.withWorld h.devices (hx.live.congr h.devices h.policy)

theorem linked_read (P : I2cPlatform ε) (hx : Linked x) (deviceId : ℕ) (reg : UInt8) (source : EventSource)
    (timeoutMs : ℕ) : Linked { x with world := (masterServiceReadFrom P x.world deviceId reg source timeoutMs).2 } := by
  unfold masterServiceReadFrom
  split
  · exact hx
  · rename_i device hget
    split_ifs
    · exact hx
    · have hrecord := quiet_recordResponse (backendRead P x.world device reg timeoutMs).2 deviceId device.addr7b
        (backendRead P x.world device reg timeoutMs).1.1 true
      have hemit := hrecord.trans (quiet_emitFlags P _ .masterRead (backendRead P x.world device reg timeoutMs).1.1 source .read
        device reg.toNat (if (backendRead P x.world device reg timeoutMs).1.1 = .ok then
          (backendRead P x.world device reg timeoutMs).1.2 else 0)
        (confirmedFlag (presenceConfirmed x.world.state deviceId) (backendRead P x.world device reg timeoutMs).1.1))
      have hcached := Forwards.after_quiet hemit (forwards_cacheResponse P _ deviceId device reg
        (if (backendRead P x.world device reg timeoutMs).1.1 = .ok then (backendRead P x.world device reg timeoutMs).1.2 else 0)
        (backendRead P x.world device reg timeoutMs).1.1)
      exact hx.withWorld hcached.devices (hx.live.congr hcached.devices hcached.policy)

/-- The policy that a valid configuration asks for fits its device. -/
theorem entryFits_of_valid (hvalid : config.Valid) {entry : I2cPolicyEntry}
    (hentry : policyEntryOf config.toI2cDeviceConfig = some entry) : EntryFits (deviceOf config.toI2cDeviceConfig) entry := by
  obtain ⟨-,-,-,-,-,-,-,hallow,hdeny,-⟩ := hvalid.shaped
  unfold policyEntryOf at hentry
  split at hentry
  · cases hentry
  · split at hentry
    · cases hentry
    · cases hentry
      exact ⟨⟨hallow,hvalid.whitelist⟩,⟨hdeny,hvalid.blacklist⟩⟩

/-- The entry of the store that a configuration is put into. -/
def replaced (config old : I2cFileConfig) : I2cFileConfig := { config with fileName := old.fileName.take (i2cFileNameMax - 1) }

/-- A well-shaped configuration under a stored name is applied to the device of that name. -/
theorem runtimeApply_done (hx : Paired x) (hstored : x.store[i]? = some stored)
    (hname : config.name.map toLower = stored.name.map toLower) (hshaped : config.Shaped) :
    ∃ w entry, runtimeI2cApplyConfig x.world config = (true,w) ∧ policyEntryOf config.toI2cDeviceConfig = some entry ∧
      w.state.devices.items = x.world.state.devices.items.set i (deviceOf config.toI2cDeviceConfig) ∧
      w.state.policy.items = x.world.state.policy.items.set i entry := by
  obtain ⟨hnil,hlen,haddr,hzero,hmax,-,hmode,hallow,hdeny,-⟩ := hshaped
  obtain ⟨device,hdevice,-⟩ := hx.deviceAt hstored
  have hpassed : ¬configRefused config.toI2cDeviceConfig := by
    rw [configRefused, not_or, not_or, not_or]
    exact ⟨hnil,hzero,Nat.not_lt.mpr hmax,UInt8.not_lt.mpr haddr⟩
  obtain ⟨mode,hcode⟩ := Option.ne_none_iff_exists'.mp hmode
  have hentry : policyEntryOf config.toI2cDeviceConfig = some ⟨mode,config.whitelist,config.blacklist⟩ := by
    unfold policyEntryOf
    rw [hcode]
    exact if_neg (by rw [not_or]; exact ⟨Nat.not_lt.mpr hallow,Nat.not_lt.mpr hdeny⟩)
  obtain ⟨w₂,hout,hitems,hpolicy,-⟩ := setConfig_passed hdevice hpassed
  have hlt₂ : i < w₂.state.devices.count := by
    rw [I2cDevices.count, hitems, List.length_set]
    exact (List.getElem?_eq_some_iff.mp hdevice).1
  obtain ⟨hok,hdevices,-,-,hentries⟩ := applyPolicyConfig_some hlt₂ hentry
  have htarget : runtimeI2cTarget x.world.state config = some i := by
    rw [runtimeI2cTarget, (hx.findByName hstored hname).2]
    rfl
  refine ⟨(masterServiceSetConfig x.world i config.toI2cDeviceConfig).2,_,?_,hentry,?_,?_⟩
  · unfold runtimeI2cApplyConfig
    rw [htarget]
    dsimp only
    rw [hout, hok]
    rfl
  · rw [hout, hdevices, hitems]
  · rw [hout, hentries, hpolicy]

/-- It is put into the entry of that name. -/
theorem storeSet_done (hx : Paired x) (hstored : x.store[i]? = some stored)
    (hname : config.name.map toLower = stored.name.map toLower) :
    configStoreSet x.store config = some (x.store.modify i (replaced config)) :=
  configStoreSet_found (hx.findByName hstored hname).1 hstored hname

/-- What the service has applied is stored. -/
theorem applyConfig_applied (hx : Paired x) (hstored : x.store[i]? = some stored)
    (hname : config.name.map toLower = stored.name.map toLower) {w : I2cWorld ε}
    (happlied : runtimeI2cApplyConfig x.world config = (true,w)) :
    applyConfig x config = (true,⟨w,x.store.modify i (replaced config)⟩) := by
  unfold applyConfig
  rw [happlied]
  dsimp only
  rw [storeSet_done hx hstored hname]

theorem applyConfig_done (hx : Paired x) (hstored : x.store[i]? = some stored)
    (hname : config.name.map toLower = stored.name.map toLower) (hshaped : config.Shaped) :
    ∃ w, runtimeI2cApplyConfig x.world config = (true,w) ∧
      applyConfig x config = (true,⟨w,x.store.modify i (replaced config)⟩) := by
  obtain ⟨w,-,happlied,-⟩ := runtimeApply_done hx hstored hname hshaped
  exact ⟨w,happlied,applyConfig_applied hx hstored hname happlied⟩

theorem names_modify {store : ConfigStore} (hstored : store[i]? = some stored)
    (hname : config.name.map toLower = stored.name.map toLower) :
    ((store.modify i (replaced config)).map fun c => c.name.map toLower) = store.map fun c => c.name.map toLower := by
  refine map_modify_of_same fun old hold => ?_
  obtain rfl := Option.some.inj (hstored.symm.trans hold)
  exact hname

theorem mem_modify {store : ConfigStore} {c : I2cFileConfig} (hc : c ∈ store.modify i (replaced config)) :
    c ∈ store ∨ ∃ old, c = replaced config old := by
  obtain ⟨j,hj⟩ := List.mem_iff_getElem?.mp hc
  rw [List.getElem?_modify] at hj
  obtain ⟨old,hold,hsame⟩ := Option.map_eq_some_iff.mp hj
  split_ifs at hsame
  · exact Or.inr ⟨old,hsame.symm⟩
  · exact Or.inl (hsame ▸ List.mem_of_getElem? hold)

theorem valid_replaced (h : config.Valid) (old : I2cFileConfig) : (replaced config old).Valid :=
  ⟨h.shaped,h.whitelist,h.blacklist,h.settings,h.profile⟩

/-- A valid configuration for a device of the same shape keeps the two linked. -/
theorem linked_modify (hx : Linked x) (hstored : x.store[i]? = some stored) (hshape : storedShape config = storedShape stored)
    (hvalid : config.Valid) : Linked { x with store := x.store.modify i (replaced config) } := by
  obtain ⟨hname,-⟩ := Prod.mk.inj hshape
  refine ⟨?_,?_,hx.live,fun c hc => ?_⟩
  · rw [names_modify hstored hname]
    exact hx.names
  · refine hx.shape.trans (map_modify_of_same fun old hold => ?_).symm
    obtain rfl := Option.some.inj (hstored.symm.trans hold)
    exact hshape
  · rcases mem_modify hc with hc | ⟨old,rfl⟩
    · exact hx.stored c hc
    · exact valid_replaced hvalid old

/-- The same for the service, before the configuration is stored. -/
theorem linked_applied (hx : Linked x) (hstored : x.store[i]? = some stored) (hshape : storedShape config = storedShape stored)
    (hvalid : config.Valid) {w : I2cWorld ε} (happlied : runtimeI2cApplyConfig x.world config = (true,w)) :
    Linked { x with world := w } := by
  obtain ⟨hname,-⟩ := Prod.mk.inj hshape
  obtain ⟨w',entry',hdone,hentry',hitems,hentries⟩ := runtimeApply_done hx.paired hstored hname hvalid.shaped
  obtain rfl : w' = w := (Prod.mk.inj (hdone.symm.trans happlied)).2
  obtain ⟨device,hdevice,hsame⟩ := hx.paired.deviceAt hstored
  have hcut : config.name.take (i2cNameMax - 1) = config.name :=
    List.take_of_length_le (Nat.le_pred_of_lt hvalid.shaped.2.1)
  have hlive : liveShape (deviceOf config.toI2cDeviceConfig) = storedShape config := by
    simp only [liveShape, storedShape, deviceOf, hcut]
  refine ⟨hx.names,?_,?_,hx.stored⟩
  · rw [← hx.shape, hitems]
    exact map_set_of_same hdevice (hlive.trans (hshape.trans hsame.symm))
  · intro j device' entry hdevice' hentry
    rw [hitems] at hdevice'
    rw [hentries] at hentry
    by_cases hj : i = j
    · subst hj
      have hlt : i < x.world.state.devices.items.length := (List.getElem?_eq_some_iff.mp hdevice).1
      rw [List.getElem?_set_self hlt, Option.some.injEq] at hdevice'
      have hlt' : i < x.world.state.policy.items.length := by
        rw [x.world.state.policySize]
        exact hlt
      rw [List.getElem?_set_self hlt', Option.some.injEq] at hentry
      subst hdevice' hentry
      exact entryFits_of_valid hvalid hentry'
    · rw [List.getElem?_set_ne hj] at hdevice' hentry
      exact hx.live j device' entry hdevice' hentry

theorem linked_applyConfig (hx : Linked x) (hstored : x.store[i]? = some stored)
    (hshape : storedShape config = storedShape stored) (hvalid : config.Valid) : Linked (applyConfig x config).2 := by
  obtain ⟨w,happlied,hdone⟩ := applyConfig_done hx.paired hstored (Prod.mk.inj hshape).1 hvalid.shaped
  rw [hdone]
  exact linked_modify (linked_applied hx hstored hshape hvalid happlied) hstored hshape hvalid

/-! ## The mirror -/

def SettingsFit (regCount : ℕ) (settings : List I2cRule) : Prop :=
  settings.length ≤ i2cSettingsMax ∧ ∀ s ∈ settings, s.reg.toNat < regCount

theorem settingsFit_update {regCount : ℕ} {settings : List I2cRule} (h : SettingsFit regCount settings) {reg : UInt8}
    (hreg : reg.toNat < regCount) (value : UInt8) : SettingsFit regCount (updateSetting settings reg value) := by
  unfold updateSetting
  split
  · refine ⟨by rw [List.length_set]; exact h.1,fun s hs => ?_⟩
    rcases List.mem_or_eq_of_mem_set hs with hs | rfl
    · exact h.2 s hs
    · exact hreg
  · split_ifs with hroom
    · refine ⟨by rw [List.length_append]; exact hroom,fun s hs => ?_⟩
      rcases List.mem_append.mp hs with hs | hs
      · exact h.2 s hs
      · exact List.mem_singleton.mp hs ▸ hreg
    · exact h

theorem settingsFit_capture (c : RegisterCache) (deviceId : ℕ) {regCount : ℕ} (hmax : regCount ≤ i2cMaxRegCount)
    (regs : List ℕ) (hregs : ∀ r ∈ regs, r < regCount) {settings : List I2cRule} (h : SettingsFit regCount settings) :
    SettingsFit regCount (regs.foldl (captureRegister c deviceId) settings) := by
  induction regs generalizing settings with
  | nil => exact h
  | cons r regs ih =>
    refine ih (fun q hq => hregs q (List.mem_cons_of_mem _ hq)) ?_
    have hr : r < regCount := hregs r List.mem_cons_self
    unfold captureRegister
    split_ifs
    · refine settingsFit_update h ?_ _
      rwa [UInt8.toNat_ofNat_of_lt' (Nat.lt_of_lt_of_le hr hmax)]
    · exact h

theorem valid_mirrored (hx : Linked x) (hstored : x.store[i]? = some stored) {device : I2cDevice} {entry : I2cPolicyEntry}
    (hdevice : x.world.state.devices.items[i]? = some device) (hshape : liveShape device = storedShape stored)
    (hentry : x.world.state.policy.items[i]? = some entry) (values : Bool) :
    (mirroredConfig x.world.state i values device entry stored).Valid := by
  have hvalid := hx.validAt hstored
  obtain ⟨hname,hlen,-,hzero,hmax,hvalue,-,-,-,hsettings⟩ := hvalid.shaped
  simp only [liveShape, storedShape, Prod.mk.injEq] at hshape
  obtain ⟨-,hregs,hcode⟩ := hshape
  have hfits := hx.live i device entry hdevice hentry
  have haddr := (x.world.state.devices.valid device (List.mem_of_getElem? hdevice)).2.1
  have hcaptured : SettingsFit device.regCount (mirroredConfig x.world.state i values device entry stored).settings := by
    have hold : SettingsFit device.regCount stored.settings := ⟨hsettings,by rw [hregs]; exact hvalid.settings⟩
    unfold mirroredConfig
    dsimp only
    split_ifs
    · exact settingsFit_capture _ _ (by rw [hregs]; exact hmax) _ (fun r hr => List.mem_range.mp hr) hold
    · exact hold
  rw [← hregs] at hzero hmax
  rw [← hcode] at hvalue
  refine ⟨⟨hname,hlen,haddr,hzero,hmax,hvalue,?_,hfits.whitelist.1,hfits.blacklist.1,hcaptured.1⟩,
    hfits.whitelist.2,hfits.blacklist.2,hcaptured.2,?_⟩
  · change PolicyMode.ofCode entry.mode.code ≠ none
    rw [ofCode_code]
    exact Option.some_ne_none _
  · change metadataValidate stored.profile device.regCount = .ok
    rw [hregs]
    exact hvalid.profile

theorem syncI2cDeviceConfig_linked (hx : Linked x) {values : Bool} {store : ConfigStore}
    (hsync : syncI2cDeviceConfig x.world.state x.store i values = some store) : Linked { x with store := store } := by
  cases hget : devicesGet x.world.state.devices i with
  | error status =>
    unfold syncI2cDeviceConfig at hsync
    rw [hget] at hsync
    cases hsync
  | ok device =>
    have hdevice := devicesGet_eq_ok hget
    obtain ⟨stored,hstored,hshape⟩ := hx.storedAt hdevice
    have hfind := (hx.paired.findByName hstored (Prod.mk.inj hshape).1).1
    obtain ⟨entry,hentry,rfl⟩ := syncI2cDeviceConfig_store hsync hget hfind hstored
    refine linked_modify hx hstored ?_ (valid_mirrored hx hstored hdevice hshape hentry values)
    have hmirrored : storedShape (mirroredConfig x.world.state i values device entry stored) =
        (stored.name.map toLower,device.regCount,device.maxValueCode) := rfl
    rw [hmirrored, ← (Prod.mk.inj hshape).1]
    exact hshape

theorem linked_syncDevice (hx : Linked x) (deviceId : ℕ) : Linked (syncDevice x deviceId).2 := by
  unfold syncDevice
  split
  · exact hx
  · rename_i store hsync
    exact syncI2cDeviceConfig_linked hx hsync

theorem linked_syncPolicy (hx : Linked x) (deviceId : ℕ) : Linked (syncPolicy x deviceId).2 := by
  unfold syncPolicy
  split
  · exact hx
  · rename_i store hsync
    exact syncI2cDeviceConfig_linked hx hsync

/-! ## Whole operations -/

theorem linked_applyEdited (hx : Linked x) (hstored : x.store[i]? = some stored) {edited : Status × I2cFileConfig}
    (hshape : storedShape edited.2 = storedShape stored) (hvalid : edited.2.Valid) : Linked (applyEdited x edited).2 := by
  unfold applyEdited
  split_ifs
  · exact hx
  all_goals exact linked_applyConfig hx hstored hshape hvalid

theorem storedShape_editRules (config : I2cFileConfig) (edit : Edit I2cRule) :
    storedShape (editRules config edit).2 = storedShape config := by
  cases edit with
  | add side rule =>
    simp only [editRules]
    split_ifs
    · rfl
    · rfl
    · cases side <;> rfl
  | remove side rule =>
    simp only [editRules]
    split_ifs
    · cases side <;> rfl
    · rfl
  | clear side => cases side <;> rfl
  | setMode mode => rfl

theorem storedShape_cmdPolicy (config : I2cFileConfig) (words : List Word) :
    storedShape (cmdPolicy config words).2 = storedShape config := by
  unfold cmdPolicy
  split
  · rfl
  · exact storedShape_editRules config _

theorem linked_consolePolicy (hx : Linked x) (token : Word) (words : List Word) :
    Linked (consolePolicy x token words).2 := by
  unfold consolePolicy
  split
  · exact hx
  · rename_i id config hselect
    obtain ⟨i,hi⟩ := selectDevice_stored hselect
    exact linked_applyEdited hx hi (storedShape_cmdPolicy config words) (cmdPolicy_valid (hx.validAt hi) words)

theorem cmdAddress_valid (h : config.Valid) (text : Word) : (cmdAddress config text).2.Valid := by
  unfold cmdAddress
  split
  · exact h
  · rename_i address haddress
    have hle := busShellNumber_le haddress
    obtain ⟨hname,hlen,-,hrest⟩ := h.shaped
    refine ⟨⟨hname,hlen,?_,hrest⟩,h.whitelist,h.blacklist,h.settings,h.profile⟩
    rw [UInt8.le_iff_toNat_le, UInt8.toNat_ofNat_of_lt' (show address < 256 by omega)]
    exact hle

theorem linked_consoleAddress (hx : Linked x) (token text : Word) : Linked (consoleAddress x token text).2 := by
  unfold consoleAddress
  split
  · exact hx
  · rename_i id config hselect
    obtain ⟨i,hi⟩ := selectDevice_stored hselect
    refine linked_applyEdited hx hi ?_ (cmdAddress_valid (hx.validAt hi) text)
    unfold cmdAddress
    split <;> rfl

theorem linked_consoleWrite (P : I2cPlatform ε) (hx : Linked x) (token reg value : Word) :
    Linked (consoleWrite P x token reg value).2 := by
  unfold consoleWrite
  split
  · exact hx
  · split
    · exact hx
    · split
      · exact hx
      · have hwritten := linked_write P hx
        dsimp only
        split_ifs
        · exact hwritten _ _ _ _ _
        all_goals exact linked_syncDevice (hwritten _ _ _ _ _) _

theorem linked_processPolicy (hx : Linked x) (opcode : ℕ) (body : List UInt8) :
    Linked { x with world := (processPolicy x.world opcode body).2 } := by
  unfold processPolicy
  split
  · exact hx
  · split
    · exact hx
    · split
      · exact hx
      · split
        · exact hx
        · split
          · exact hx
          · split
            · exact hx
            · split
              · split
                · exact hx
                · split
                  · exact hx
                  · exact hx
              · exact linked_run hx _ _

theorem linked_dcp2MirrorPolicy (hx : Linked x) (opcode : ℕ) (body : List UInt8) (status : Status) :
    Linked (dcp2MirrorPolicy x opcode body status).2 := by
  unfold dcp2MirrorPolicy
  dsimp only
  split_ifs
  · split
    · exact hx
    · exact linked_syncDevice hx _
  · exact hx
  · exact hx
  · split
    · exact hx
    · exact linked_syncPolicy hx _
  · exact hx

theorem linked_dcp2HandlePolicy (hx : Linked x) (opcode : ℕ) (body : List UInt8) :
    Linked (dcp2HandlePolicy x opcode body).2 :=
  linked_dcp2MirrorPolicy (linked_processPolicy hx opcode body) opcode body _

end

end Bvstk.Surfaces
