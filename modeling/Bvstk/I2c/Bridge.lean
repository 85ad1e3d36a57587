import Bvstk.Cache.Bridge
import Bvstk.I2c.ConfigAtomicity

/-! # The I2C bridge

The part of `bvstk_cache_bridges.c` that exports the I2C service: what it does on each call
of the service, and when the registry shows what the service holds. The service does not
keep the profiles, so the identifiers of the registers are those of the last definition.
-/
namespace Bvstk.I2c
open Config Cache CallLog
variable {ε : Type}

/-- `i2c`. -/
def i2cSubsystem : Cache.Name := [105,50,99]

def i2cCatalog (config : I2cDeviceConfig) : Catalog :=
  ⟨i2cSubsystem,config.name,config.regCount,resourceName config.profile,8⟩

def RegisterEntry.sample (e : RegisterEntry) : Sample := ⟨e.value.toUInt64,e.valid,e.seeded,e.updatedMs⟩

def I2cState.samples (s : I2cState) (d r : ℕ) : Sample := (s.cache.entries d (UInt8.ofNat r)).sample

/-- The number of a presence, the same in the service and in the registry. -/
def Presence.code : Presence → ℕ
  | .unknown => presenceUnknown
  | .responding => presenceReady
  | .unavailable => presenceUnavailable

def configureI2c (b : Bridge) (s : I2cState) (d : ℕ) (config : I2cDeviceConfig) : Bridge :=
  b.define d (i2cCatalog config) (s.presence d).code (s.samples d)

/-- A shrinking catalog can invalidate slots outside its exported range. -/
def i2cEntry (now : ℕ → UInt64) (b : Bridge) (s : I2cState) (d : ℕ) (r : UInt8) (e : RegisterEntry) : Bridge :=
  match s.devices.items[d]? with
  | none => b
  | some item => if r.toNat < item.regCount then b.put now d r.toNat e.sample else b

def i2cPresence (now : ℕ → UInt64) (b : Bridge) (d : ℕ) (presence : Presence) : Bridge := b.presence now d presence.code

/-- `bvstk_cache_attach_i2c`. -/
def attachI2c (registry : CacheRegistry) (s : I2cState) (configs : List I2cDeviceConfig) : Bridge :=
  attach registry s.cache.deviceCount fun b d =>
    match configs[d]? with
    | none => b
    | some config => configureI2c b s d config

/-- What the bridge does on a call, in the state in which the service makes it. -/
def observe (now : ℕ → UInt64) (b : Bridge) (p : I2cState × I2cCall) : Bridge :=
  match p.2 with
  | .entry d r e => i2cEntry now b p.1 d r e
  | .presence d presence => i2cPresence now b d presence
  | .configChanged d config => configureI2c b p.1 d config
  | _ => b

/-- The bridge after the calls made so far. -/
def bridgeAt (now : ℕ → UInt64) (b : Bridge) (w : I2cWorld ε) : Bridge := w.calls.foldl (observe now) b

/-! ## What is exported -/

def I2cState.catalog (s : I2cState) (ids : ℕ → ℕ → Cache.Name) (d : ℕ) : Catalog :=
  match s.devices.items[d]? with
  | none => ⟨i2cSubsystem,[],0,ids d,8⟩
  | some item => ⟨i2cSubsystem,item.name,item.regCount,ids d,8⟩

/-- A device is shown by its registers and its presence. -/
def I2cState.exports (s : I2cState) (ids : ℕ → ℕ → Cache.Name) (d : ℕ) : Export :=
  ⟨s.catalog ids d,s.samples d,fun presence => presence = (s.presence d).code⟩

/-- The registry shows the service, but for the exceptions. -/
def Mirrors (ids : ℕ → ℕ → Cache.Name) (stale : ℕ → ℕ → Prop) (doubt : ℕ → Prop) (s : I2cState) (b : Bridge) :
    Prop := b.Mirrors s.devices.count (s.exports ids) stale doubt

theorem lt_count {ds : I2cDevices} {d : ℕ} {item : I2cDevice} (h : ds.items[d]? = some item) : d < ds.count :=
  (List.getElem?_eq_some_iff.mp h).1

/-- The table holds the descriptors of the configurations. -/
theorem devicesInitFromConfig_eq_ok {configs : List I2cDeviceConfig} {ds : I2cDevices}
    (h : devicesInitFromConfig configs = .ok ds) :
    ds.count = configs.length ∧
      ∀ (d : ℕ) (config : I2cDeviceConfig), configs[d]? = some config → ds.items[d]? = some (deviceOf config) := by
  unfold devicesInitFromConfig devicesInit at h
  split at h
  · cases h
    refine ⟨List.length_map _,fun d config hconfig => ?_⟩
    rw [List.getElem?_map, hconfig]
    rfl
  · cases h

theorem known_of_lt {ds : I2cDevices} {d : ℕ} (h : d < ds.count) : ∃ item, ds.items[d]? = some item :=
  ⟨_,List.getElem?_eq_getElem h⟩

theorem catalog_of_known {s : I2cState} {d : ℕ} {item : I2cDevice} (h : s.devices.items[d]? = some item)
    (ids : ℕ → ℕ → Cache.Name) : s.catalog ids d = ⟨i2cSubsystem,item.name,item.regCount,ids d,8⟩ := by
  rw [I2cState.catalog, h]

theorem tooWide_sample (e : RegisterEntry) : tooWide e.sample.value 8 = false := by
  have hlt : e.value.toNat < 2^8 := e.value.toNat_lt
  simp only [tooWide, RegisterEntry.sample, UInt8.toNat_toUInt64, decide_eq_false_iff_not, not_and, not_not]
  intro _
  rw [show (8 : UInt8).toNat = 8 from rfl, Nat.shiftRight_eq_div_pow]
  exact Nat.div_eq_of_lt hlt

theorem exports_fits (s : I2cState) (ids : ℕ → ℕ → Cache.Name) (d : ℕ) : (s.exports ids d).Fits := by
  have hcatalog : (s.exports ids d).catalog.width = 8 := by
    change (s.catalog ids d).width = 8
    unfold I2cState.catalog
    split
    · rfl
    · rfl
  refine ⟨hcatalog ▸ (by decide : (8 : UInt8) ≠ 0 ∧ (8 : UInt8).toNat ≤ 64),fun r => ?_⟩
  rw [hcatalog]
  exact tooWide_sample _

theorem code_le (p : Presence) : p.code ≤ presenceUnavailable := by
  cases p with
  | unknown => decide
  | responding => decide
  | unavailable => decide

/-! ## One call -/

section
variable {ids : ℕ → ℕ → Cache.Name} {stale : ℕ → ℕ → Prop} {doubt : ℕ → Prop} {s s' : I2cState} {b : Bridge}

/-- The catalogs, the samples that are not stale and the presences are all that is seen of
the state. -/
theorem Mirrors.congr (h : Mirrors ids stale doubt s b) (hcount : s'.devices.count = s.devices.count)
    (hcatalog : ∀ d, s'.catalog ids d = s.catalog ids d)
    (hsame : ∀ d item, s.devices.items[d]? = some item → ∀ i < item.regCount, ¬stale d i →
      s'.samples d i = s.samples d i)
    (hpresence : ∀ d, ¬doubt d → s'.presence d = s.presence d) : Mirrors ids stale doubt s' b := by
  unfold Mirrors
  rw [hcount]
  refine Bridge.Mirrors.congr h (fun d _ => hcatalog d) (fun d hd i hi hfresh => ⟨hfresh,?_⟩) fun d _ hsure =>
    ⟨hsure,fun presence hpresent => ?_⟩
  · obtain ⟨item,hknown⟩ := known_of_lt hd
    have hi' := hi
    have hitem : (s.exports ids d).catalog.count = item.regCount := congrArg Catalog.count (catalog_of_known hknown ids)
    rw [hitem] at hi'
    exact congrArg (fun m => normalize ((s.exports ids d).catalog.entry i m)) (hsame d item hknown i hi' hfresh)
  · change presence = (s'.presence d).code
    rw [hpresence d hsure]
    exact hpresent

/-- Fewer exceptions, for registers that are there. -/
theorem Mirrors.mono {stale' : ℕ → ℕ → Prop} {doubt' : ℕ → Prop} (h : Mirrors ids stale doubt s b)
    (hstale : ∀ d item, s.devices.items[d]? = some item → ∀ i < item.regCount, stale d i → stale' d i)
    (hdoubt : ∀ d, doubt d → doubt' d) : Mirrors ids stale' doubt' s b := by
  refine Bridge.Mirrors.mono h (fun d hd i hi hs => ?_) hdoubt
  obtain ⟨item,hknown⟩ := known_of_lt hd
  have hitem : (s.exports ids d).catalog.count = item.regCount := congrArg Catalog.count (catalog_of_known hknown ids)
  exact hstale d item hknown i (hitem ▸ hi) hs

/-- Reporting register `r` of device `d`, with a sample that shows what is there. -/
theorem mirrors_entry (now : ℕ → UInt64) {d : ℕ} {r : UInt8} {e : RegisterEntry}
    (h : Mirrors ids (fun d' i => stale d' i ∨ d' = d ∧ i = r.toNat) doubt s b)
    (he : ∀ k : Catalog, normalize (k.entry r.toNat e.sample) = normalize (k.entry r.toNat (s.samples d r.toNat))) :
    Mirrors ids stale doubt s (i2cEntry now b s d r e) := by
  unfold i2cEntry
  cases hknown : s.devices.items[d]? with
  | none =>
    refine h.mono (fun d' item hknown' i _ hs => hs.resolve_right ?_) fun _ hd => hd
    rintro ⟨rfl,-⟩
    cases hknown.symm.trans hknown'
  | some item =>
    dsimp only
    have hcatalog := catalog_of_known hknown ids
    have hwidth : (s.exports ids d).catalog.width = 8 := congrArg Catalog.width hcatalog
    have hcount : (s.exports ids d).catalog.count = item.regCount := congrArg Catalog.count hcatalog
    split
    · rename_i hr
      have hput := Bridge.Mirrors.put now h (lt_count hknown) (hcount ▸ hr) (he _) (hwidth ▸ tooWide_sample e)
      refine Bridge.Mirrors.mono hput (fun d' _ i _ hs => ?_) fun _ hd => hd
      exact hs.1.resolve_right hs.2
    · rename_i hr
      refine h.mono (fun d' item' hknown' i hi hs => hs.resolve_right ?_) fun _ hd => hd
      rintro ⟨rfl,rfl⟩
      cases hknown.symm.trans hknown'
      exact hr hi

/-- The registry shows every device but `d₀`, which is there under some name. -/
def Others (ids : ℕ → ℕ → Cache.Name) (d₀ : ℕ) (s : I2cState) (b : Bridge) : Prop :=
  b.MirrorsOthers s.devices.count (s.exports ids) d₀

/-- A state that differs in device `d₀` only. -/
theorem exports_congr {d₀ : ℕ} (hdevices : ∀ d ≠ d₀, s'.devices.items[d]? = s.devices.items[d]?)
    (hcache : ∀ d ≠ d₀, s'.cache.entries d = s.cache.entries d) (hpresence : ∀ d ≠ d₀, s'.presence d = s.presence d) :
    ∀ d ≠ d₀, s'.exports ids d = s.exports ids d := by
  intro d hd
  simp only [I2cState.exports, I2cState.catalog, hdevices d hd, hpresence d hd]
  congr 1
  funext i
  rw [I2cState.samples, I2cState.samples, hcache d hd]

theorem Others.congr {d₀ : ℕ} (h : Others ids d₀ s b) (hcount : s'.devices.count = s.devices.count)
    (hsame : ∀ d ≠ d₀, s'.exports ids d = s.exports ids d) : Others ids d₀ s' b := by
  unfold Others
  rw [hcount]
  exact ⟨h.wellFormed,h.handles,h.live,fun d hd hne => hsame d hne ▸ h.shows d hd hne⟩

theorem Mirrors.others (h : Mirrors ids Fresh Sure s b) {d₀ : ℕ} (hd₀ : d₀ < s.devices.count) : Others ids d₀ s b :=
  Bridge.Mirrors.others h hd₀ fun _ _ => rfl

theorem others_entry (now : ℕ → UInt64) {d₀ : ℕ} (h : Others ids d₀ s b) (hd₀ : d₀ < s.devices.count) (r : UInt8)
    (e : RegisterEntry) : Others ids d₀ s (i2cEntry now b s d₀ r e) ∧
      (i2cEntry now b s d₀ r e).handles = b.handles ∧
      ∀ name, nameTaken (i2cEntry now b s d₀ r e).registry (b.handles d₀) i2cSubsystem name =
        nameTaken b.registry (b.handles d₀) i2cSubsystem name := by
  unfold i2cEntry
  split
  · exact ⟨h,rfl,fun _ => rfl⟩
  · split
    · obtain ⟨dev,hdev⟩ := h.live
      have hothers := (put_live hdev r.toNat e.sample.value e.sample.valid (origin e.sample.seeded)
        e.sample.updatedMs (now b.ticks)).2
      exact ⟨Bridge.MirrorsOthers.put now h hd₀ r.toNat e.sample,rfl,fun name => nameTaken_congr hothers _ name⟩
    · exact ⟨h,rfl,fun _ => rfl⟩

/-- The configuration can be exported in place of the device `d`: its policy is a possible
one, its names are valid, and no other device has its name. -/
structure Redefinable (b : Bridge) (d : ℕ) (config : I2cDeviceConfig) : Prop where
  policy : policyEntryOf config ≠ none
  catalog : (i2cCatalog config).Exportable
  free : nameTaken b.registry (b.handles d) i2cSubsystem config.name = false

theorem take_of_nameValid {name : Cache.Name} (h : nameValid name = true) : name.take (i2cNameMax - 1) = name := by
  have hlength := (nameValid_length h).2
  refine List.take_of_length_le ?_
  simp only [cacheNameMax] at hlength
  simp only [i2cNameMax]
  omega

theorem name_of_configure {d : ℕ} {config : I2cDeviceConfig} (hok : (configureI2c b s d config).status = .ok) :
    nameValid config.name = true := by
  have hwidth : (8 : UInt8) ≠ 0 ∧ (8 : UInt8).toNat ≤ 64 := by decide
  exact (exportable_of_define (k := i2cCatalog config) (Prod.ext hok rfl) hwidth).name

/-- A definition that is accepted shows the device under its new identifiers. -/
theorem others_configure {d : ℕ} {config : I2cDeviceConfig} (h : Others ids d s b)
    (hknown : s.devices.items[d]? = some (deviceOf config)) (hok : (configureI2c b s d config).status = .ok) :
    Mirrors (Function.update ids d (resourceName config.profile)) Fresh Sure s (configureI2c b s d config) := by
  obtain ⟨ids',hids⟩ : ∃ ids', ids' = Function.update ids d (resourceName config.profile) := ⟨_,rfl⟩
  have hcatalog : (s.exports ids' d).catalog = i2cCatalog config := by
    have hitem : (s.exports ids' d).catalog = _ := catalog_of_known hknown ids'
    rw [hitem, deviceOf, i2cCatalog, hids, Function.update_self, take_of_nameValid (name_of_configure hok)]
  have hothers : b.MirrorsOthers s.devices.count (s.exports ids') d := by
    refine ⟨h.wellFormed,h.handles,h.live,fun d' hd' hne => ?_⟩
    have hsame : s.exports ids' d' = s.exports ids d' := by
      simp only [I2cState.exports, I2cState.catalog, hids, Function.update_of_ne hne]
    exact hsame ▸ h.shows d' hd' hne
  rw [configureI2c, ← hcatalog] at hok ⊢
  rw [← hids]
  exact hothers.define (lt_count hknown) (exports_fits s ids' d) rfl hok

theorem others_configure_ok {d : ℕ} {config : I2cDeviceConfig} (h : Others ids d s b)
    (hredefinable : Redefinable b d config) : (configureI2c b s d config).status = .ok := by
  let y : Export := ⟨i2cCatalog config,s.samples d,fun _ => True⟩
  have hfits : y.Fits := ⟨(by decide : (8 : UInt8) ≠ 0 ∧ (8 : UInt8).toNat ≤ 64),fun r => tooWide_sample _⟩
  exact Bridge.MirrorsOthers.define_ok (y := y) h hredefinable.catalog hfits (code_le _) hredefinable.free

/-- A definition that is refused changes nothing that is shown. -/
theorem mirrors_refused {d : ℕ} {config : I2cDeviceConfig} (h : Mirrors ids stale doubt s b)
    (hrefused : (configureI2c b s d config).status ≠ .ok) : Mirrors ids stale doubt s (configureI2c b s d config) := by
  have hsame := Bridge.define_refused hrefused
  unfold configureI2c at hrefused ⊢
  rw [hsame]
  exact ⟨h.wellFormed,h.handles,h.shows⟩

/-- Attached with the configurations the tables were made from, the registry shows the
service. -/
theorem attachI2c_mirrors {registry : CacheRegistry} (hregistry : registry.WellFormed) {configs : List I2cDeviceConfig}
    (hdevices : devicesInitFromConfig configs = .ok s.devices) (hok : (attachI2c registry s configs).status = .ok) :
    ∃ ids, Mirrors ids Fresh Sure s (attachI2c registry s configs) := by
  obtain ⟨hlength,hitem⟩ := devicesInitFromConfig_eq_ok hdevices
  -- what is exported at first: the configurations themselves
  let x : ℕ → Export := fun d =>
    ⟨((configs[d]?).map i2cCatalog).getD ⟨i2cSubsystem,[],0,fun _ => [],8⟩,s.samples d,
      fun presence => presence = (s.presence d).code⟩
  have hfits : ∀ d < s.cache.deviceCount, (x d).Fits := by
    intro d hd
    have hconfig : configs[d]? = some _ := List.getElem?_eq_getElem (hlength ▸ s.cacheSize ▸ hd)
    have hwidth : (x d).catalog.width = 8 := by
      simp only [x, hconfig]
      rfl
    refine ⟨hwidth ▸ (by decide : (8 : UInt8) ≠ 0 ∧ (8 : UInt8).toNat ≤ 64),fun r => ?_⟩
    rw [hwidth]
    exact tooWide_sample _
  have hmirrors : (attachI2c registry s configs).Mirrors s.cache.deviceCount x Fresh Sure := by
    have hpresent : ∀ d < s.cache.deviceCount, (x d).present (s.presence d).code := fun _ _ => rfl
    refine attach_mirrors hregistry (fun d hd b => ?_) hfits hpresent hok
    have hconfig : configs[d]? = some _ := List.getElem?_eq_getElem (hlength ▸ s.cacheSize ▸ hd)
    simp only [x, hconfig]
    rfl
  rw [s.cacheSize] at hmirrors
  refine ⟨fun d => (x d).catalog.id,Bridge.Mirrors.congr hmirrors (fun d hd => ?_) (fun _ _ _ _ _ => ⟨not_false,rfl⟩)
    fun _ _ _ => ⟨not_false,fun _ hp => hp⟩⟩
  obtain ⟨dev,hdev,hshown,-⟩ := hmirrors.shows d hd
  have hconfig : configs[d]? = some _ := List.getElem?_eq_getElem (hlength ▸ hd)
  have hvalid : nameValid (x d).catalog.name = true := hshown.device ▸ (hmirrors.wellFormed.device_valid hdev).device
  have hcatalog : (x d).catalog = i2cCatalog configs[d] := by
    simp only [x, hconfig]
    rfl
  rw [hcatalog] at hvalid
  have hname : configs[d].name.take (i2cNameMax - 1) = configs[d].name := take_of_nameValid hvalid
  have hknown : (s.exports (fun d => (x d).catalog.id) d).catalog = _ :=
    catalog_of_known (hitem d _ hconfig) fun d => (x d).catalog.id
  rw [hknown, hcatalog, deviceOf, hname]
  rfl

end

end Bvstk.I2c
