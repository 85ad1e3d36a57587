import Bvstk.Config.ProfileSize
import Bvstk.I2c.CacheCapture

/-! # Saving device files

What is loaded from a profile is saved and loaded again as it was. A configuration from a legacy
file becomes a profile: the policy, the values the cache starts with, the address and the polling
are what they were.
-/
namespace Bvstk.Config
open Profile

namespace Profile

/-! ## Settings -/

theorem lastSeeds_sublist (seeds : List Seed) : (lastSeeds seeds).Sublist seeds := by
  induction seeds with
  | nil => exact .slnil
  | cons s seeds ih =>
    rw [lastSeeds]
    split
    · exact ih.cons s
    · exact ih.cons₂ s

theorem lastSeeds_nodup (seeds : List Seed) : ((lastSeeds seeds).map Seed.reg).Nodup := by
  induction seeds with
  | nil => exact List.nodup_nil
  | cons s seeds ih =>
    rw [lastSeeds]
    split
    · exact ih
    · rename_i hnew
      rw [List.map_cons, List.nodup_cons]
      refine ⟨fun hmem => ?_,ih⟩
      obtain ⟨x,hx,heq⟩ := List.mem_map.mp hmem
      exact hnew ⟨x,(lastSeeds_sublist seeds).subset hx,heq⟩

/-! ## Metadata -/

/-- What a profile without a version becomes has metadata that can be read. -/
theorem metadataOk_modern {mdio : Bool} {p : DeviceProfile} (hversion : p.profile.version = 0) (hname : idValid p.name = true)
    (hvalid : metadataValidate p.profile p.regCount = .ok) : MetadataOk (modernMetadata mdio p) := by
  obtain ⟨hne,hlength,hprintable,-⟩ := idValid_plain hname
  have hassets : registerMapValid p.profile.registerMap = true ∧ assetNameValid p.profile.view jsExtension = true ∧
      (p.profile.view ≠ [] → p.profile.registerMap ≠ []) := by
    unfold metadataValidate at hvalid
    split at hvalid
    · cases hvalid
    · rename_i hbad
      simp only [not_or, not_and] at hbad
      exact ⟨by simpa using hbad.2.1,by simpa using hbad.2.2.1,hbad.2.2.2⟩
  have hnil : ∀ cap, 0 < cap → ([] : Name).length < cap ∧ Printable [] := fun cap hcap => ⟨hcap,fun b hb => nomatch hb⟩
  unfold modernMetadata
  simp only [if_pos hversion]
  refine ⟨rfl,⟨hne,hlength.trans (by decide),hprintable⟩,hnil 65 (by decide),hnil 97 (by decide),?_,hassets.1,hassets.2.1,hassets.2.2⟩
  cases mdio with
  | true => exact (by decide : classValid (I2cJson.text "phy") = true)
  | false => exact (by decide : classValid (I2cJson.text "generic") = true)

theorem encoded_modern {mdio : Bool} {p : DeviceProfile} (hversion : p.profile.version = 0) (hname : idValid p.name = true) :
    Encoded (modern mdio p) := by
  have hnil : Written [] := ⟨.nil,fun b hb => nomatch hb⟩
  unfold modern modernMetadata
  simp only [if_pos hversion]
  exact ⟨(idValid_ascii hname).written,hnil,hnil⟩

end Profile

/-! ## I2C devices -/

/-- A legacy configuration that is written is one that can be read. -/
theorem canonical_of_legacy_i2c {c : I2cFileConfig} (hversion : c.profile.version = 0) (hname : idValid c.name = true) (hc : c.Valid) :
    Canonical false (modern false c.deviceProfile) (resourceId c.profile) := by
  obtain ⟨-,-,haddress,hzero,hcount,hcode,-,hwhite,hblack,hsettings⟩ := hc.shaped
  have hne : c.profile.version ≠ 2 := by
    rw [hversion]
    decide
  have hrules : ∀ rules : List I2cRule, (∀ r ∈ rules, r.reg.toNat < c.regCount ∧ r.val ≤ c.maxValueCode) →
      ∀ r ∈ rules.map fun r => (⟨r.reg.toNat,r.val.toNat,255⟩ : PolicyRule), RuleOk false c.regCount c.maxValueCode.toNat r :=
    fun rules hall r hr => by
      obtain ⟨x,hx,rfl⟩ := List.mem_map.mp hr
      obtain ⟨hreg,hval⟩ := hall x hx
      exact ⟨hreg,Nat.le_of_lt_succ x.val.toNat_lt,Nat.le_refl _,Or.inr ⟨rfl,UInt8.le_iff_toNat_le.mp hval⟩⟩
  constructor
  · exact hname
  · exact metadataOk_modern hversion hname hc.profile
  · exact UInt8.le_iff_toNat_le.mp haddress
  · exact ⟨UInt8.le_iff_toNat_le.mp hcode,rfl,rfl,rfl,rfl⟩
  · exact ⟨Nat.pos_of_ne_zero hzero,hcount⟩
  · exact legacyIds_ok hne hcount
  · exact ⟨rfl,rfl⟩
  · exact ⟨le_of_eq_of_le (List.length_map _) hwhite,hrules _ hc.whitelist⟩
  · exact ⟨le_of_eq_of_le (List.length_map _) hblack,hrules _ hc.blacklist⟩
  · have hsub := lastSeeds_sublist c.deviceProfile.settings
    refine ⟨hsub.length_le.trans (le_of_eq_of_le (List.length_map _) hsettings),lastSeeds_nodup _,fun s hs => ?_⟩
    obtain ⟨x,hx,rfl⟩ := List.mem_map.mp (hsub.subset hs)
    exact ⟨hc.settings x hx,Nat.le_of_lt_succ x.val.toNat_lt⟩

theorem code_writtenMode {policy : ℕ} (h : PolicyMode.ofCode policy ≠ none) : (writtenMode policy).code = policy := by
  match policy with
  | 0 => rfl
  | 1 => rfl
  | policy + 2 => exact absurd rfl h

theorem seedsOf_cons (s : I2cRule) (rest : List I2cRule) :
    lastSeeds ((s :: rest).map fun s => (⟨s.reg.toNat,s.val.toNat⟩ : Seed)) =
      if ∃ x ∈ rest, x.reg = s.reg then lastSeeds (rest.map fun s => ⟨s.reg.toNat,s.val.toNat⟩)
      else ⟨s.reg.toNat,s.val.toNat⟩ :: lastSeeds (rest.map fun s => ⟨s.reg.toNat,s.val.toNat⟩) := by
  have hiff : (∃ x ∈ rest.map fun s => (⟨s.reg.toNat,s.val.toNat⟩ : Seed), x.reg = s.reg.toNat) ↔ ∃ x ∈ rest, x.reg = s.reg := by
    simp only [List.mem_map, exists_exists_and_eq_and, UInt8.toNat_inj]
  rw [List.map_cons, lastSeeds]
  simp only [hiff]

theorem lastSetting_isSome {settings : List I2cRule} {reg : UInt8} (h : ∃ x ∈ settings, x.reg = reg) :
    (I2c.lastSetting settings reg).isSome = true := by
  obtain ⟨x,hx,hreg⟩ := h
  have hmem : x ∈ I2c.settingsOf settings reg := List.mem_filter.mpr ⟨hx,beq_iff_eq.mpr hreg⟩
  unfold I2c.lastSetting
  rw [Option.isSome_map, List.getLast?_isSome]
  exact List.ne_nil_of_mem hmem

/-- The settings that are written seed each register with the value that won. -/
theorem lastSetting_lastSeeds (settings : List I2cRule) (reg : UInt8) :
    I2c.lastSetting ((lastSeeds (settings.map fun s => ⟨s.reg.toNat,s.val.toNat⟩)).map fun s =>
      ⟨UInt8.ofNat s.reg,UInt8.ofNat s.val⟩) reg = I2c.lastSetting settings reg := by
  induction settings with
  | nil => rfl
  | cons s rest ih =>
    rw [seedsOf_cons, I2c.lastSetting_cons]
    split
    · rename_i hagain
      rw [ih]
      by_cases hreg : s.reg = reg
      · obtain ⟨value,hvalue⟩ := Option.isSome_iff_exists.mp (lastSetting_isSome (hreg ▸ hagain))
        rw [hvalue, Option.some_or]
      · rw [if_neg hreg, Option.or_none]
    · rw [List.map_cons, I2c.lastSetting_cons, ih, UInt8.ofNat_toNat, UInt8.ofNat_toNat]

/-- The file of a legacy I2C device, saved as a profile, is loaded as the same device: its address,
its registers and its two lists of rules are what they were, and each register starts with the same
value. -/
theorem migrate_i2c {c : I2cFileConfig} {cap : ℕ} {json : Bytes} (hversion : c.profile.version = 0)
    (hformat : formatI2cProfile c cap = .ok json) : ∃ c', parseI2cProfile json = .ok c' ∧ c'.profile.version = 2 ∧
      c' = { c with fileName := [], settings := c'.settings, profile := c'.profile } ∧
      ∀ reg, I2c.lastSetting c'.settings reg = I2c.lastSetting c.settings reg := by
  have hvalid : i2cConfigValidate c = .ok := by
    by_contra hinvalid
    rw [formatI2cProfile, if_neg hinvalid] at hformat
    cases hformat
  have hc := i2cConfigValidate_eq_ok.mp hvalid
  have hname : idValid c.name = true := by
    rw [formatI2cProfile, if_pos hvalid] at hformat
    exact (format_eq_ok.mp hformat).1
  have hcanonical := canonical_of_legacy_i2c hversion hname hc
  have hrules : ∀ rules : List I2cRule, (rules.map fun r => (⟨r.reg.toNat,r.val.toNat,255⟩ : PolicyRule)).map
      (fun r => (⟨UInt8.ofNat r.reg,UInt8.ofNat r.val⟩ : I2cRule)) = rules := fun rules => by
    rw [List.map_map]
    refine (List.map_congr_left fun r _ => ?_).trans (List.map_id rules)
    simp only [Function.comp_apply, UInt8.ofNat_toNat, id_eq]
  obtain ⟨-,-,-,-,-,-,hpolicy,-⟩ := hc.shaped
  refine ⟨_,parseI2cProfile_format hformat hcanonical (encoded_modern hversion hname),rfl,?_,fun reg => lastSetting_lastSeeds _ reg⟩
  unfold modern DeviceProfile.toI2c I2cFileConfig.deviceProfile
  dsimp only
  rw [hrules, hrules, UInt8.ofNat_toNat, UInt8.ofNat_toNat, code_writtenMode hpolicy]

/-- A legacy device with a rule and two values for one register. -/
def sampleI2c : I2cFileConfig where
  name := I2cJson.text "dac"
  addr7b := 0x20
  regCount := 4
  maxValueCode := 64
  policy := 1
  whitelist := []
  blacklist := [⟨3,9⟩]
  profile := .zero
  fileName := []
  settings := [⟨1,5⟩,⟨1,7⟩]

theorem sampleI2c_valid : i2cConfigValidate sampleI2c = .ok := by decide

theorem formatI2cProfile_sample :
    formatI2cProfile sampleI2c (profileJsonMax + 1) = .ok (formatText false sampleI2c.deviceProfile) := by
  have hcanonical := canonical_of_legacy_i2c rfl (by decide) (i2cConfigValidate_eq_ok.mp sampleI2c_valid)
  rw [formatI2cProfile, if_pos sampleI2c_valid]
  exact format_fits hcanonical (Or.inr (by decide))

theorem migrate_i2c_sample : ∃ c', parseI2cProfile (formatText false sampleI2c.deviceProfile) = .ok c' ∧ c'.profile.version = 2 ∧
    c' = { sampleI2c with fileName := [], settings := c'.settings, profile := c'.profile } ∧
    ∀ reg, I2c.lastSetting c'.settings reg = I2c.lastSetting sampleI2c.settings reg :=
  migrate_i2c rfl formatI2cProfile_sample

/-- An I2C profile that was loaded and saved is loaded as it was, but for the place of its
identifiers, and saved as it was. -/
theorem rewrite_i2c_profile {json json' : Bytes} {c : I2cFileConfig} {cap : ℕ} (hparse : parseI2cProfile json = .ok c)
    (hformat : formatI2cProfile c cap = .ok json') : ∃ c', parseI2cProfile json' = .ok c' ∧
      c' = { c with profile := { c.profile with idOffset := c'.profile.idOffset, ids := c'.profile.ids } } ∧
      (∀ r < c.regCount, c'.profile.id r = c.profile.id r) ∧ ∀ cap', formatI2cProfile c' cap' = formatI2cProfile c cap' := by
  obtain ⟨hvalid,hself,hversion,hwritten,hcanonical,hencoded⟩ := parseI2cProfile_accepted hparse
  refine ⟨_,parseI2cProfile_format hformat hcanonical hencoded,?_,fun r hr => ?_,fun cap' => ?_⟩
  · rw [modern_of_version hversion hwritten]
    conv_rhs => rw [hself]
    rfl
  · have hid := metadataValidate_id (i2cConfigValidate_eq_ok.mp hvalid).profile hversion hr
    rw [hid]
    exact id_canonical hcanonical hr
  · have hmodern : (modern false c.deviceProfile).toI2c.deviceProfile = modern false c.deviceProfile :=
      deviceProfile_toI2c_canonical hcanonical
    rw [formatI2cProfile, formatI2cProfile, if_pos (i2cConfigValidate_canonical hcanonical), if_pos hvalid, hmodern,
      format_modern hcanonical]

theorem rewrite_i2c_profile_sample : ∃ c', parseI2cProfile (formatText false (modern false sampleI2c.deviceProfile)) = .ok c' ∧
    c' = { (modern false sampleI2c.deviceProfile).toI2c with profile := { (modern false sampleI2c.deviceProfile).toI2c.profile with
      idOffset := c'.profile.idOffset, ids := c'.profile.ids } } ∧
    (∀ r < 4, c'.profile.id r = (modern false sampleI2c.deviceProfile).toI2c.profile.id r) ∧
    ∀ cap', formatI2cProfile c' cap' = formatI2cProfile (modern false sampleI2c.deviceProfile).toI2c cap' := by
  have hcanonical := canonical_of_legacy_i2c rfl (by decide) (i2cConfigValidate_eq_ok.mp sampleI2c_valid)
  have hparse := parseI2cProfile_format formatI2cProfile_sample hcanonical (encoded_modern rfl (by decide))
  have hformat : formatI2cProfile (modern false sampleI2c.deviceProfile).toI2c (profileJsonMax + 1) =
      .ok (formatText false (modern false sampleI2c.deviceProfile)) := by
    rw [formatI2cProfile, if_pos (i2cConfigValidate_canonical hcanonical), deviceProfile_toI2c_canonical hcanonical]
    exact format_fits (canonical_modern hcanonical) (Or.inr (by decide))
  exact rewrite_i2c_profile hparse hformat

/-- A configuration of an I2C device whose file may be written as a profile: one from a profile, or
one from a legacy file with a name that profiles allow. -/
def SavableI2c (c : I2cFileConfig) : Prop :=
  (∃ json, parseI2cProfile json = .ok c) ∨ c.profile.version = 0 ∧ i2cConfigValidate c = .ok ∧ idValid c.name = true

/-- Such a configuration with no more than 300 rules always fits the buffer that files are saved
from. -/
theorem save_i2c_profile {c : I2cFileConfig} (h : SavableI2c c) (hrules : c.whitelist.length + c.blacklist.length ≤ 300) :
    ∃ json, formatI2cProfile c (profileJsonMax + 1) = .ok json := by
  have hboth : i2cConfigValidate c = .ok ∧ Canonical false (modern false c.deviceProfile) (resourceId c.profile) := by
    rcases h with ⟨json,hparse⟩ | ⟨hversion,hvalid,hname⟩
    · obtain ⟨hvalid,-,-,-,hcanonical,-⟩ := parseI2cProfile_accepted hparse
      exact ⟨hvalid,hcanonical⟩
    · exact ⟨hvalid,canonical_of_legacy_i2c hversion hname (i2cConfigValidate_eq_ok.mp hvalid)⟩
  obtain ⟨hvalid,hcanonical⟩ := hboth
  have hfew : c.deviceProfile.whitelist.length + c.deviceProfile.blacklist.length ≤ 300 := by
    rw [I2cFileConfig.deviceProfile, List.length_map, List.length_map]
    exact hrules
  rw [formatI2cProfile, if_pos hvalid]
  exact ⟨_,format_fits hcanonical (Or.inr hfew)⟩

theorem save_i2c_profile_sample : ∃ json, formatI2cProfile sampleI2c (profileJsonMax + 1) = .ok json :=
  save_i2c_profile (Or.inr ⟨rfl,sampleI2c_valid,by decide⟩) (by decide)

/-! ## PHYs -/

theorem regsCheck_nodup {regCount : UInt8} {seen regs : List UInt8} (h : regsCheck regCount seen regs = .ok) :
    regs.Nodup ∧ ∀ r ∈ regs, r ∉ seen := by
  induction regs generalizing seen with
  | nil => exact ⟨List.nodup_nil,fun r hr => nomatch hr⟩
  | cons r regs ih =>
    unfold regsCheck at h
    split_ifs at h with hcount hseen
    obtain ⟨hnodup,hfresh⟩ := ih h
    refine ⟨List.nodup_cons.mpr ⟨fun hr => hfresh r hr List.mem_cons_self,hnodup⟩,?_⟩
    rw [List.forall_mem_cons]
    exact ⟨hseen,fun x hx hmem => hfresh x hx (List.mem_cons_of_mem r hmem)⟩

/-- A legacy configuration that is written is one that can be read. -/
theorem canonical_of_legacy_mdio {c : MdioPhyConfig} (hversion : c.profile.version = 0) (hname : idValid c.name = true)
    (hc : c.Valid) : Canonical true (modern true c.deviceProfile) (resourceId c.profile) := by
  obtain ⟨-,-,haddress,hzero,hcount,-,hwhite,hblack,hsettings,hfew,hregDelay,hcycleDelay⟩ := hc.shaped
  have hcountNat : c.regCount.toNat ≤ 32 := UInt8.le_iff_toNat_le.mp hcount
  have hne : c.profile.version ≠ 2 := by
    rw [hversion]
    decide
  have hrules : ∀ rules : List MdioRule, (∀ r ∈ rules, r.reg < c.regCount) →
      ∀ r ∈ rules.map fun r => (⟨r.reg.toNat,r.val.toNat,r.mask.toNat⟩ : PolicyRule), RuleOk true c.regCount.toNat 0 r :=
    fun rules hall r hr => by
      obtain ⟨x,hx,rfl⟩ := List.mem_map.mp hr
      exact ⟨UInt8.lt_iff_toNat_lt.mp (hall x hx),Nat.le_of_lt_succ x.val.toNat_lt,Nat.le_of_lt_succ x.mask.toNat_lt,Or.inl rfl⟩
  have hregs : ∀ regs : List UInt8, regsCheck c.regCount [] regs = .ok →
      (regs.map UInt8.toNat).Nodup ∧ ∀ r ∈ regs.map UInt8.toNat, r < c.regCount.toNat := fun regs hok => by
    refine ⟨(regsCheck_nodup hok).1.map fun a b heq => UInt8.toNat_inj.mp heq,fun r hr => ?_⟩
    obtain ⟨x,hx,rfl⟩ := List.mem_map.mp hr
    exact UInt8.lt_iff_toNat_lt.mp (regsCheck_below hok x hx)
  obtain ⟨hpollNodup,hpollBelow⟩ := hregs _ hc.autopoll
  obtain ⟨hseedNodup,hseedBelow⟩ := hregs _ hc.settings
  have hseeds : (c.settings.map fun s => (⟨s.reg.toNat,s.val.toNat⟩ : Seed)).map Seed.reg = (c.settings.map (·.reg)).map UInt8.toNat := by
    rw [List.map_map, List.map_map]
    rfl
  constructor
  · exact hname
  · exact metadataOk_modern hversion hname hc.profile
  · exact UInt8.le_iff_toNat_le.mp haddress
  · exact ⟨rfl,hpollNodup,hpollBelow,le_of_eq_of_le (List.length_map _) hfew,UInt32.le_iff_toNat_le.mp hregDelay,
      UInt32.le_iff_toNat_le.mp hcycleDelay⟩
  · refine ⟨Nat.pos_of_ne_zero fun hnone => hzero (UInt8.toNat_inj.mp hnone),hcountNat⟩
  · exact legacyIds_ok hne (hcountNat.trans (by decide))
  · exact ⟨rfl,rfl⟩
  · exact ⟨le_of_eq_of_le (List.length_map _) hwhite,hrules _ hc.whitelist⟩
  · exact ⟨le_of_eq_of_le (List.length_map _) hblack,hrules _ hc.blacklist⟩
  · refine ⟨le_of_eq_of_le (List.length_map _) hsettings,?_,fun s hs => ?_⟩
    · exact hseeds ▸ hseedNodup
    · have hreg : s.reg ∈ (c.settings.map (·.reg)).map UInt8.toNat := hseeds ▸ List.mem_map_of_mem hs
      obtain ⟨x,-,rfl⟩ := List.mem_map.mp hs
      exact ⟨hseedBelow _ hreg,Nat.le_of_lt_succ x.val.toNat_lt⟩

/-- The file of a legacy PHY, saved as a profile, is loaded as the same PHY: its address, its
registers, its two lists of rules, its polling and the values it starts with are what they were. -/
theorem migrate_mdio {c : MdioPhyConfig} {cap : ℕ} {json : Bytes} (hversion : c.profile.version = 0)
    (hformat : formatMdioProfile c cap = .ok json) : ∃ c', parseMdioProfile json = .ok c' ∧ c'.profile.version = 2 ∧
      c' = { c with fileName := [], settingsSpare := c'.settingsSpare, profile := c'.profile } := by
  have hvalid : mdioConfigValidate c = .ok := by
    by_contra hinvalid
    rw [formatMdioProfile, if_neg hinvalid] at hformat
    cases hformat
  have hc := mdioConfigValidate_eq_ok.mp hvalid
  have hname : idValid c.name = true := by
    rw [formatMdioProfile, if_pos hvalid] at hformat
    exact (format_eq_ok.mp hformat).1
  have hcanonical := canonical_of_legacy_mdio hversion hname hc
  have hrules : ∀ rules : List MdioRule, (rules.map fun r => (⟨r.reg.toNat,r.val.toNat,r.mask.toNat⟩ : PolicyRule)).map
      (fun r => (⟨UInt8.ofNat r.reg,UInt16.ofNat r.val,UInt16.ofNat r.mask⟩ : MdioRule)) = rules := fun rules => by
    rw [List.map_map]
    refine (List.map_congr_left fun r _ => ?_).trans (List.map_id rules)
    simp only [Function.comp_apply, UInt8.ofNat_toNat, UInt16.ofNat_toNat, id_eq]
  have hseeds : (writtenSeeds true (c.settings.map fun s => ⟨s.reg.toNat,s.val.toNat⟩)).map
      (fun s => (⟨UInt8.ofNat s.reg,UInt16.ofNat s.val⟩ : MdioSetting)) = c.settings := by
    rw [writtenSeeds, if_pos rfl, List.map_map]
    refine (List.map_congr_left fun s _ => ?_).trans (List.map_id c.settings)
    simp only [Function.comp_apply, UInt8.ofNat_toNat, UInt16.ofNat_toNat, id_eq]
  have hpoll : (c.autopollRegs.map UInt8.toNat).map UInt8.ofNat = c.autopollRegs := by
    rw [List.map_map]
    refine (List.map_congr_left fun r _ => ?_).trans (List.map_id c.autopollRegs)
    rw [Function.comp_apply, UInt8.ofNat_toNat, id_eq]
  obtain ⟨-,-,-,-,-,hpolicy,-⟩ := hc.shaped
  refine ⟨_,parseMdioProfile_format hformat hcanonical (encoded_modern hversion hname),rfl,?_⟩
  unfold modern DeviceProfile.toMdio MdioPhyConfig.deviceProfile
  dsimp only
  rw [hrules, hrules, hseeds, hpoll, UInt8.ofNat_toNat, UInt8.ofNat_toNat, UInt32.ofNat_toNat, UInt32.ofNat_toNat,
    code_writtenMode hpolicy]

/-- A legacy PHY with a rule, a value and two registers to poll. -/
def samplePhy : MdioPhyConfig where
  name := I2cJson.text "phy"
  fileName := []
  phyAddr := 3
  regCount := 4
  policy := 0
  autopollEnabled := true
  autopollRegs := [1,0]
  autopollRegDelayMs := 5
  autopollCycleDelayMs := 100
  whitelist := [⟨2,0x1200,0xFF00⟩]
  blacklist := []
  settings := [⟨0,0x3100⟩]
  settingsSpare := []
  profile := .zero

theorem samplePhy_valid : mdioConfigValidate samplePhy = .ok := by decide

theorem formatMdioProfile_sample :
    formatMdioProfile samplePhy (profileJsonMax + 1) = .ok (formatText true samplePhy.deviceProfile) := by
  have hcanonical := canonical_of_legacy_mdio rfl (by decide) (mdioConfigValidate_eq_ok.mp samplePhy_valid)
  rw [formatMdioProfile, if_pos samplePhy_valid]
  exact format_fits hcanonical (Or.inl rfl)

theorem migrate_mdio_sample : ∃ c', parseMdioProfile (formatText true samplePhy.deviceProfile) = .ok c' ∧ c'.profile.version = 2 ∧
    c' = { samplePhy with fileName := [], settingsSpare := c'.settingsSpare, profile := c'.profile } :=
  migrate_mdio rfl formatMdioProfile_sample

/-- A profile of a PHY that was loaded and saved is loaded as it was, but for the place of its
identifiers, and saved as it was. -/
theorem rewrite_mdio_profile {json json' : Bytes} {c : MdioPhyConfig} {cap : ℕ} (hparse : parseMdioProfile json = .ok c)
    (hformat : formatMdioProfile c cap = .ok json') : ∃ c', parseMdioProfile json' = .ok c' ∧
      c' = { c with profile := { c.profile with idOffset := c'.profile.idOffset, ids := c'.profile.ids } } ∧
      (∀ r < c.regCount.toNat, c'.profile.id r = c.profile.id r) ∧ ∀ cap', formatMdioProfile c' cap' = formatMdioProfile c cap' := by
  obtain ⟨hvalid,hself,hversion,hwritten,hcanonical,hencoded⟩ := parseMdioProfile_accepted hparse
  refine ⟨_,parseMdioProfile_format hformat hcanonical hencoded,?_,fun r hr => ?_,fun cap' => ?_⟩
  · have htable : ∀ (p : DeviceProfile) (idOffset : ℕ → ℕ) (ids : List UInt8),
        DeviceProfile.toMdio { p with profile := { p.profile with idOffset := idOffset, ids := ids } } =
          { p.toMdio with profile := { p.toMdio.profile with idOffset := idOffset, ids := ids } } := fun p idOffset ids => rfl
    rw [modern_of_version hversion hwritten, htable, ← hself]
  · have hid := metadataValidate_id (mdioConfigValidate_eq_ok.mp hvalid).profile hversion hr
    rw [hid]
    exact id_canonical hcanonical hr
  · have hmodern : (modern true c.deviceProfile).toMdio.deviceProfile = modern true c.deviceProfile :=
      deviceProfile_toMdio_canonical hcanonical
    rw [formatMdioProfile, formatMdioProfile, if_pos (mdioConfigValidate_canonical hcanonical), if_pos hvalid, hmodern,
      format_modern hcanonical]

theorem rewrite_mdio_profile_sample : ∃ c', parseMdioProfile (formatText true (modern true samplePhy.deviceProfile)) = .ok c' ∧
    c' = { (modern true samplePhy.deviceProfile).toMdio with profile := { (modern true samplePhy.deviceProfile).toMdio.profile with
      idOffset := c'.profile.idOffset, ids := c'.profile.ids } } ∧
    (∀ r < (modern true samplePhy.deviceProfile).toMdio.regCount.toNat,
      c'.profile.id r = (modern true samplePhy.deviceProfile).toMdio.profile.id r) ∧
    ∀ cap', formatMdioProfile c' cap' = formatMdioProfile (modern true samplePhy.deviceProfile).toMdio cap' := by
  have hcanonical := canonical_of_legacy_mdio rfl (by decide) (mdioConfigValidate_eq_ok.mp samplePhy_valid)
  have hparse := parseMdioProfile_format formatMdioProfile_sample hcanonical (encoded_modern rfl (by decide))
  have hformat : formatMdioProfile (modern true samplePhy.deviceProfile).toMdio (profileJsonMax + 1) =
      .ok (formatText true (modern true samplePhy.deviceProfile)) := by
    rw [formatMdioProfile, if_pos (mdioConfigValidate_canonical hcanonical), deviceProfile_toMdio_canonical hcanonical]
    exact format_fits (canonical_modern hcanonical) (Or.inl rfl)
  exact rewrite_mdio_profile hparse hformat

/-- A configuration of a PHY whose file may be written as a profile. -/
def SavableMdio (c : MdioPhyConfig) : Prop :=
  (∃ json, parseMdioProfile json = .ok c) ∨ c.profile.version = 0 ∧ mdioConfigValidate c = .ok ∧ idValid c.name = true

/-- Such a configuration always fits the buffer that files are saved from. -/
theorem save_mdio_profile {c : MdioPhyConfig} (h : SavableMdio c) : ∃ json, formatMdioProfile c (profileJsonMax + 1) = .ok json := by
  have hboth : mdioConfigValidate c = .ok ∧ Canonical true (modern true c.deviceProfile) (resourceId c.profile) := by
    rcases h with ⟨json,hparse⟩ | ⟨hversion,hvalid,hname⟩
    · obtain ⟨hvalid,-,-,-,hcanonical,-⟩ := parseMdioProfile_accepted hparse
      exact ⟨hvalid,hcanonical⟩
    · exact ⟨hvalid,canonical_of_legacy_mdio hversion hname (mdioConfigValidate_eq_ok.mp hvalid)⟩
  obtain ⟨hvalid,hcanonical⟩ := hboth
  rw [formatMdioProfile, if_pos hvalid]
  exact ⟨_,format_fits hcanonical (Or.inl rfl)⟩

theorem save_mdio_profile_sample : ∃ json, formatMdioProfile samplePhy (profileJsonMax + 1) = .ok json :=
  save_mdio_profile (Or.inr ⟨rfl,samplePhy_valid,by decide⟩)

end Bvstk.Config
