import Bvstk.Cache.Bridge
import Bvstk.Mdio.ServiceEffect

/-! # The MDIO bridge

The part of `bvstk_cache_bridges.c` that exports the MDIO service: what it does on each
call of the service, and when the registry shows what the service holds.
-/
namespace Bvstk.Mdio
open Config Cache CallLog
variable {ε : Type}

/-- `mdio`. -/
def mdioSubsystem : Cache.Name := [109,100,105,111]

def mdioCatalog (c : MdioPhyConfig) : Catalog :=
  ⟨mdioSubsystem,c.name,c.regCount.toNat,resourceName c.profile,16⟩

def MdioCacheEntry.sample (e : MdioCacheEntry) : Sample := ⟨e.value.toUInt64,e.valid,e.seeded,e.updatedMs⟩

def MdioState.samples (s : MdioState) (d r : ℕ) : Sample := (s.cache d (UInt8.ofNat r)).sample

def MdioState.definedPresence (s : MdioState) (d : ℕ) : ℕ :=
  if s.online d = true then presenceReady else presenceUnknown

def configureMdio (b : Bridge) (s : MdioState) (d : ℕ) (c : MdioPhyConfig) : Bridge :=
  b.define d (mdioCatalog c) (s.definedPresence d) (s.samples d)

def mdioEntry (now : ℕ → UInt64) (b : Bridge) (s : MdioState) (d : ℕ) (r : UInt8) (e : MdioCacheEntry) : Bridge :=
  match s.devices.items[d]? with
  | none => b
  | some c => if r < c.regCount then b.put now d r.toNat e.sample else b

def mdioPresence (now : ℕ → UInt64) (b : Bridge) (d presence : ℕ) : Bridge := b.presence now d presence

/-- `bvstk_cache_attach_mdio`. -/
def attachMdio (registry : CacheRegistry) (s : MdioState) : Bridge :=
  attach registry s.devices.count fun b d =>
    match s.devices.items[d]? with
    | none => b
    | some c => configureMdio b s d c

/-- What the bridge does on a call, in the state in which the service makes it. -/
def observe (now : ℕ → UInt64) (b : Bridge) (p : MdioState × MdioCall) : Bridge :=
  match p.2 with
  | .entry d r e => mdioEntry now b p.1 d r e
  | .presence d presence => mdioPresence now b d presence
  | .configChanged d c => configureMdio b p.1 d c
  | _ => b

/-- The bridge after the calls made so far. -/
def bridgeAt (now : ℕ → UInt64) (b : Bridge) (w : MdioWorld ε) : Bridge := w.calls.foldl (observe now) b

/-! ## What is exported -/

def MdioState.catalog (s : MdioState) (d : ℕ) : Catalog :=
  match s.devices.items[d]? with
  | none => ⟨mdioSubsystem,[],0,fun _ => [],16⟩
  | some c => mdioCatalog c

/-- A PHY is shown by its registers, and as ready exactly if it is online. -/
def MdioState.exports (s : MdioState) (d : ℕ) : Export :=
  ⟨s.catalog d,s.samples d,fun presence => presence = presenceReady ↔ s.online d = true⟩

/-- The registry shows the service, but for the exceptions. -/
def Mirrors (stale : ℕ → ℕ → Prop) (doubt : ℕ → Prop) (s : MdioState) (b : Bridge) : Prop :=
  b.Mirrors s.devices.count s.exports stale doubt

theorem catalog_of_known {s : MdioState} {d : ℕ} {c : MdioPhyConfig} (h : s.devices.items[d]? = some c) :
    s.catalog d = mdioCatalog c := by
  rw [MdioState.catalog, h]

theorem known_of_lt {ps : MdioPhys} {d : ℕ} (h : d < ps.count) : ∃ c, ps.items[d]? = some c :=
  ⟨_,List.getElem?_eq_getElem h⟩

theorem lt_count {ps : MdioPhys} {d : ℕ} {c : MdioPhyConfig} (h : ps.items[d]? = some c) : d < ps.count :=
  (List.getElem?_eq_some_iff.mp h).1

theorem regCount_le {c : MdioPhyConfig} (h : c.Valid) : c.regCount.toNat ≤ 32 := h.shaped.2.2.2.2.1

theorem tooWide_sample (e : MdioCacheEntry) : tooWide e.sample.value 16 = false := by
  have hlt : e.value.toNat < 2^16 := e.value.toNat_lt
  simp only [tooWide, MdioCacheEntry.sample, UInt16.toNat_toUInt64, decide_eq_false_iff_not, not_and, not_not]
  intro _
  rw [show (16 : UInt8).toNat = 16 from rfl, Nat.shiftRight_eq_div_pow]
  exact Nat.div_eq_of_lt hlt

theorem nameValid_of_safeName {s : Config.Name} (h : safeName s 32 = true) : nameValid s = true := by
  simp only [safeName, Bool.and_eq_true, bne_iff_ne, decide_eq_true_eq, List.all_eq_true] at h
  obtain ⟨⟨⟨hne,hall⟩,hlength⟩,-⟩ := h
  simp only [nameValid, Bool.and_eq_true, decide_eq_true_eq, List.all_eq_true]
  refine ⟨⟨hne,hlength⟩,?_⟩
  intro x hx
  have hchar := hall x hx
  simp only [isWord, isLower, isUpper, digit, Bool.or_eq_true, decide_eq_true_eq, beq_iff_eq] at hchar
  simp only [nameChar, decide_eq_true_eq]
  tauto

/-- A configuration that passed the check can be exported. -/
theorem mdioCatalog_exportable {c : MdioPhyConfig} (h : c.Valid) : (mdioCatalog c).Exportable := by
  obtain ⟨hids,hdistinct⟩ := resourceName_spec h.profile
  have hsubsystem : nameValid mdioSubsystem = true := by decide
  have hwidth : (16 : UInt8) ≠ 0 ∧ (16 : UInt8).toNat ≤ 64 := by decide
  have hcount : c.regCount.toNat ≤ cacheResourcesMax := Nat.le_trans (regCount_le h) (by decide)
  exact ⟨hsubsystem,nameValid_of_safeName h.shaped.1,hcount,hids,hdistinct,hwidth⟩

/-! ## One call -/

theorem exports_fits (s : MdioState) (d : ℕ) : (s.exports d).Fits := by
  have hcatalog : (s.exports d).catalog.width = 16 := by
    change (s.catalog d).width = 16
    unfold MdioState.catalog
    split
    · rfl
    · rfl
  refine ⟨hcatalog ▸ (by decide : (16 : UInt8) ≠ 0 ∧ (16 : UInt8).toNat ≤ 64),fun r => ?_⟩
  rw [hcatalog]
  exact tooWide_sample _

theorem definedPresence_le (s : MdioState) (d : ℕ) : s.definedPresence d ≤ presenceUnavailable := by
  unfold MdioState.definedPresence
  cases s.online d with
  | false => decide
  | true => decide

theorem definedPresence_right (s : MdioState) (d : ℕ) : (s.exports d).present (s.definedPresence d) := by
  unfold MdioState.definedPresence MdioState.exports
  cases s.online d with
  | false => simp [presenceReady, presenceUnknown]
  | true => simp [presenceReady]

section
variable {stale : ℕ → ℕ → Prop} {doubt : ℕ → Prop} {s s' : MdioState} {b : Bridge}

/-- Fewer exceptions, for registers that are there. -/
theorem Mirrors.mono {stale' : ℕ → ℕ → Prop} {doubt' : ℕ → Prop} (h : Mirrors stale doubt s b)
    (hstale : ∀ d c, s.devices.items[d]? = some c → ∀ i < c.regCount.toNat, stale d i → stale' d i)
    (hdoubt : ∀ d, doubt d → doubt' d) : Mirrors stale' doubt' s b := by
  refine Bridge.Mirrors.mono h (fun d hd i hi hs => ?_) hdoubt
  obtain ⟨c,hknown⟩ := known_of_lt hd
  have hcatalog : (s.exports d).catalog = mdioCatalog c := catalog_of_known hknown
  rw [hcatalog] at hi
  exact hstale d c hknown i hi hs

/-- The exported parts of the configurations, the samples that are not stale and the online
flags are all that is seen of the state. -/
theorem Mirrors.congr (h : Mirrors stale doubt s b) (hcount : s'.devices.count = s.devices.count)
    (hcatalog : ∀ d, s'.catalog d = s.catalog d)
    (hsame : ∀ d c, s.devices.items[d]? = some c → ∀ i < c.regCount.toNat, ¬stale d i →
      s'.samples d i = s.samples d i)
    (honline : ∀ d, ¬doubt d → s'.online d = s.online d) : Mirrors stale doubt s' b := by
  unfold Mirrors
  rw [hcount]
  refine Bridge.Mirrors.congr h (fun d _ => hcatalog d) (fun d hd i hi hfresh => ⟨hfresh,?_⟩) fun d _ hsure =>
    ⟨hsure,fun presence hpresent => ?_⟩
  · obtain ⟨c,hknown⟩ := known_of_lt hd
    have hknown' : (s.exports d).catalog = mdioCatalog c := catalog_of_known hknown
    have hi' := hi
    rw [hknown'] at hi'
    exact congrArg (fun m => normalize ((s.exports d).catalog.entry i m)) (hsame d c hknown i hi' hfresh)
  · change presence = presenceReady ↔ s'.online d = true
    rw [honline d hsure]
    exact hpresent

theorem mirrors_entry (now : ℕ → UInt64) (h : Mirrors stale doubt s b) (d : ℕ) (r : UInt8) :
    Mirrors (fun d' i => stale d' i ∧ ¬(d' = d ∧ i = r.toNat)) doubt s (mdioEntry now b s d r (s.cache d r)) := by
  unfold mdioEntry
  cases hknown : s.devices.items[d]? with
  | none =>
    refine Bridge.Mirrors.mono h (fun d' hd' i _ hstale => ⟨hstale,?_⟩) fun _ hd => hd
    rintro ⟨rfl,-⟩
    obtain ⟨c,hc⟩ := known_of_lt hd'
    cases hknown.symm.trans hc
  | some c =>
    dsimp only
    have hcatalog : (s.exports d).catalog = mdioCatalog c := catalog_of_known hknown
    split
    · rename_i hr
      have hsample : s.samples d r.toNat = (s.cache d r).sample := by
        rw [MdioState.samples, UInt8.ofNat_toNat]
      refine Bridge.Mirrors.put now h (lt_count hknown) (hcatalog ▸ UInt8.lt_iff_toNat_lt.mp hr) ?_ ?_
      · exact congrArg (fun m => normalize ((s.exports d).catalog.entry r.toNat m)) hsample.symm
      · exact hsample ▸ (exports_fits s d).2 r.toNat
    · rename_i hr
      refine Bridge.Mirrors.mono h (fun d' hd' i hi hstale => ⟨hstale,?_⟩) fun _ hd => hd
      rintro ⟨rfl,rfl⟩
      rw [hcatalog] at hi
      exact hr (UInt8.lt_iff_toNat_lt.mpr hi)

/-- A PHY that is defined anew under its name is shown as it is. -/
theorem mirrors_configure (h : Mirrors Fresh Sure s b) {d : ℕ} {old c : MdioPhyConfig}
    (hold : s.devices.items[d]? = some old) (hc : c.Valid) (hname : c.name = old.name)
    (hdevices : s'.devices.items = s.devices.items.set d c) (hcache : s'.cache = s.cache)
    (honline : s'.online = s.online) : Mirrors Fresh Sure s' (configureMdio b s' d c) := by
  have hlt := lt_count hold
  have hcount : s'.devices.count = s.devices.count := by
    rw [MdioPhys.count, hdevices, List.length_set]
    rfl
  have hcatalog : (s'.exports d).catalog = mdioCatalog c := by
    refine catalog_of_known ?_
    rw [hdevices, List.getElem?_set_self hlt]
  have hsame : ∀ d' ≠ d, s'.exports d' = s.exports d' := by
    intro d' hd'
    have hitem : s'.devices.items[d']? = s.devices.items[d']? := by
      rw [hdevices, List.getElem?_set_ne hd'.symm]
    simp only [MdioState.exports, MdioState.catalog, hitem, honline]
    congr 1
    funext i
    rw [MdioState.samples, MdioState.samples, hcache]
  have hothers := Bridge.Mirrors.others h hlt hsame
  -- the device has this name already
  obtain ⟨dev,hdev,hshown,-⟩ := Bridge.Mirrors.shows h d hlt
  have hfree : nameTaken b.registry (b.handles d) (mdioCatalog c).subsystem (mdioCatalog c).name = false := by
    have hself := nameTaken_self h.wellFormed hdev
    rw [hshown.subsystem, hshown.device] at hself
    have hcatalog' : (s.exports d).catalog = mdioCatalog old := catalog_of_known hold
    rw [hcatalog'] at hself
    exact (congrArg (nameTaken b.registry (b.handles d) mdioSubsystem) hname).trans hself
  have hok := hothers.define_ok (y := s'.exports d) (hcatalog ▸ mdioCatalog_exportable hc) (exports_fits s' d)
    (definedPresence_le s' d) (hcatalog ▸ hfree)
  have hmirrors := hothers.define hlt (exports_fits s' d) (definedPresence_right s' d) hok
  unfold Mirrors configureMdio
  rw [hcount, ← hcatalog]
  exact hmirrors

theorem attachMdio_mirrors {registry : CacheRegistry} (hregistry : registry.WellFormed)
    (hok : (attachMdio registry s).status = .ok) : Mirrors Fresh Sure s (attachMdio registry s) := by
  refine attach_mirrors hregistry (fun d hd b => ?_) (fun d _ => exports_fits s d)
    (fun d _ => definedPresence_right s d) hok
  obtain ⟨c,hknown⟩ := known_of_lt hd
  have hcatalog : (s.exports d).catalog = mdioCatalog c := catalog_of_known hknown
  rw [hknown, hcatalog]
  rfl

end

end Bvstk.Mdio
