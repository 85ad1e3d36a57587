import Bvstk.Config.ProfileAccepted

/-! # Rewriting profiles

What is written of a configuration is read back as this configuration, and what is written of one
without a profile is read as a profile that behaves as the configuration did.
-/
namespace Bvstk.Config
open Profile
open BoundedNumber (Numeral)

namespace Profile

/-! ## Reading what was written -/

/-- What `format` writes of a profile, `parse` reads as its version 2. -/
theorem parse_format {mdio : Bool} {p : DeviceProfile} {cap : ℕ} {json : Bytes} (hformat : format mdio p cap = .ok json)
    (hp : Canonical mdio (modern mdio p) (resourceId p.profile)) (hencoded : Encoded (modern mdio p)) :
    parse mdio json = .ok (modern mdio p) := by
  obtain ⟨-,-,-,hlength,rfl⟩ := format_eq_ok.mp hformat
  have hlast : JsonText.Blank [10] := by decide
  have hcount : 0 < p.regCount := hp.count.1
  rw [formatText_eq mdio hcount] at hlength ⊢
  have hdoc : parse mdio ([] ++ (canonical.documentText mdio (modern mdio p) (resourceId p.profile) ++ [10])) =
      .ok (modern mdio p) :=
    parse_documentText canonical_blank hp hencoded .nil hlast (by rwa [List.nil_append])
  rwa [List.nil_append] at hdoc

/-! ## Writing what was read -/

section
variable {mdio : Bool} {p : DeviceProfile} {ids ids' : ℕ → Name}

theorem layout_congr {count : ℕ} (h : ∀ i < count, ids i = ids' i) : layout ids count = layout ids' count := by
  rw [layout, layout]
  congr 1
  refine List.flatMap_congr fun i hi => ?_
  rw [h i (List.mem_range.mp hi)]

theorem offsets_congr {count : ℕ} (h : ∀ i < count, ids i = ids' i) : offsets ids count = offsets ids' count := by
  funext k
  rw [offsets, offsets]
  split
  · rename_i hk
    rw [layout_congr fun i hi => h i (hi.trans hk)]
  · rfl

theorem Canonical.congr (hp : Canonical mdio p ids) (h : ∀ i < p.regCount, ids i = ids' i) : Canonical mdio p ids' := by
  have hidentifiers : IdsOk ids' p.regCount := by
    refine ⟨fun i hi => ?_,fun i hi j hj heq => ?_,?_⟩
    · rw [← h i hi]
      exact hp.identifiers.valid i hi
    · rw [← h i hi, ← h j hj] at heq
      exact hp.identifiers.distinct i hi j hj heq
    · rw [← layout_congr h]
      exact hp.identifiers.size
  have htable : p.profile.ids = layout ids' p.regCount ∧ p.profile.idOffset = offsets ids' p.regCount := by
    rw [← layout_congr h, ← offsets_congr h]
    exact hp.table
  exact { hp with identifiers := hidentifiers, table := htable }

/-- The document depends on the identifiers of its registers only. -/
theorem documentText_congr {S : Spacing} (hp : Canonical mdio p ids) (h : ∀ i < p.regCount, ids i = ids' i) :
    S.documentText mdio p ids = S.documentText mdio p ids' := by
  have hresource : ∀ i ∈ List.range p.regCount, resourceTree ids i = resourceTree ids' i := fun i hi => by
    rw [resourceTree, resourceTree, h i (List.mem_range.mp hi)]
  have hrules : ∀ rules : List PolicyRule, (∀ r ∈ rules, RuleOk mdio p.regCount p.maxValueCode r) →
      rules.map (ruleTree mdio ids) = rules.map (ruleTree mdio ids') := fun rules hall =>
    List.map_congr_left fun r hr => by rw [ruleTree, ruleTree, h r.reg (hall r hr).reg]
  have hpolicy : policyTree mdio p ids = policyTree mdio p ids' := by
    rw [policyTree, policyTree, writeTree, writeTree, DeviceProfile.active, DeviceProfile.inactive]
    cases p.policy with
    | whitelist =>
      dsimp only
      rw [hrules _ hp.whitelist.2, hrules _ hp.blacklist.2]
    | blacklist =>
      dsimp only
      rw [hrules _ hp.whitelist.2, hrules _ hp.blacklist.2]
  have hsettings : settingsTree mdio p ids = settingsTree mdio p ids' := by
    have hseeds : p.settings.map (seedTree mdio ids) = p.settings.map (seedTree mdio ids') :=
      List.map_congr_left fun s hs => by rw [seedTree, seedTree, h s.reg (hp.settings.2.2 s hs).1]
    rw [settingsTree, settingsTree, hseeds]
  have hprotocol : protocolTree mdio p ids = protocolTree mdio p ids' := by
    rw [protocolTree, protocolTree, optionsTree, optionsTree]
    have hoptions := hp.options
    unfold OptionsOk at hoptions
    split
    · rename_i hmdio
      rw [if_pos hmdio] at hoptions
      have horder : p.autopollRegs.map (fun r => JsonText.Tree.string (ids r)) = p.autopollRegs.map fun r => .string (ids' r) :=
        List.map_congr_left fun r hr => by rw [h r (hoptions.2.2.1 r hr)]
      rw [horder]
    · rfl
  have hfields : documentFields mdio p ids = documentFields mdio p ids' := by
    rw [documentFields, documentFields, hprotocol, hpolicy, hsettings, List.map_congr_left hresource]
  have hrows : S.rowsText ids p.regCount = S.rowsText ids' p.regCount := by
    rw [Spacing.rowsText, Spacing.rowsText]
    congr 3
    exact List.map_congr_left fun i hi => by rw [hresource i hi]
  have hfield : ∀ f, S.fieldText ids p.regCount f = S.fieldText ids' p.regCount f := fun f => by
    rw [Spacing.fieldText, Spacing.fieldText, hrows]
  rw [Spacing.documentText, Spacing.documentText, hfields]
  simp only [hfield]

theorem resourceId_modern_eq (h : IdsOk (resourceId p.profile) p.regCount) {i : ℕ} (hi : i < p.regCount) :
    resourceId (modern mdio p).profile i = resourceId p.profile i := by
  have htext := textAt_layout hi (idValid_plain (h.valid i hi)).2.2.2
  rw [resourceId_modern rfl]
  exact htext

/-- A profile that was written once is written as it was. -/
theorem modern_modern (hp : Canonical mdio (modern mdio p) (resourceId p.profile)) : modern mdio (modern mdio p) = modern mdio p := by
  have hids : ∀ i < p.regCount, resourceId (modern mdio p).profile i = resourceId p.profile i := fun i hi =>
    resourceId_modern_eq hp.identifiers hi
  have htable : layout (resourceId (modern mdio p).profile) p.regCount = layout (resourceId p.profile) p.regCount := layout_congr hids
  have hoffsets : offsets (resourceId (modern mdio p).profile) p.regCount = offsets (resourceId p.profile) p.regCount :=
    offsets_congr hids
  have hsettings : writtenSeeds mdio (modern mdio p).settings = (modern mdio p).settings :=
    writtenSeeds_of_nodup hp.settings.2.1
  have hprofile : modernMetadata mdio (modern mdio p) = modernMetadata mdio p := by
    have hmetadata : modernMetadata mdio (modern mdio p) =
        { modernMetadata mdio p with
          idOffset := offsets (resourceId (modern mdio p).profile) p.regCount
          ids := layout (resourceId (modern mdio p).profile) p.regCount } := rfl
    rw [hmetadata, htable, hoffsets]
    rfl
  have hself : modern mdio (modern mdio p) =
      { modern mdio p with
        settings := writtenSeeds mdio (modern mdio p).settings
        profile := modernMetadata mdio (modern mdio p) } := rfl
  rw [hself, hsettings, hprofile]
  rfl

theorem canonical_modern (hp : Canonical mdio (modern mdio p) (resourceId p.profile)) :
    Canonical mdio (modern mdio (modern mdio p)) (resourceId (modern mdio p).profile) := by
  rw [modern_modern hp]
  exact hp.congr fun i hi => (resourceId_modern_eq hp.identifiers hi).symm

theorem formatText_modern (hp : Canonical mdio (modern mdio p) (resourceId p.profile)) :
    formatText mdio (modern mdio p) = formatText mdio p := by
  have hcount : 0 < p.regCount := hp.count.1
  have hids : ∀ i < p.regCount, resourceId p.profile i = resourceId (modern mdio p).profile i := fun i hi =>
    (resourceId_modern_eq hp.identifiers hi).symm
  have hcongr := documentText_congr (S := canonical) hp hids
  rw [formatText_eq mdio hcount, formatText_eq mdio (p := modern mdio p) hcount, modern_modern hp, hcongr]

/-! ## Texts that can be quoted -/

theorem listed_fine {α : Type} {item : Bytes → α → List Output} {xs : List α} (h : ∀ x ∈ xs, ∀ separator, ∀ o ∈ item separator x, o.Fine) :
    ∀ o ∈ listed item xs, o.Fine := by
  cases xs with
  | nil => exact fun o ho => absurd ho List.not_mem_nil
  | cons x xs =>
    obtain ⟨hx,hxs⟩ := List.forall_mem_cons.mp h
    intro o ho
    rcases List.mem_append.mp ho with ho | ho
    · exact hx [] o ho
    · obtain ⟨y,hy,ho⟩ := List.mem_flatMap.mp ho
      exact hxs y hy _ o ho

theorem memberUnlessEmpty_fine {s : Name} (h : Printable s) (key : Bytes) : ∀ o ∈ memberUnlessEmpty s key, o.Fine := by
  unfold memberUnlessEmpty
  split
  · exact fun o ho => absurd ho List.not_mem_nil
  · simpa [Output.Fine] using h

/-- Each call of `format` for a profile that was read can succeed. -/
theorem outputs_fine (hp : Canonical mdio (modern mdio p) (resourceId p.profile)) : ∀ o ∈ outputs mdio p, o.Fine := by
  have hids : ∀ i < p.regCount, Printable (resourceId p.profile i) := fun i hi => (idValid_plain (hp.identifiers.valid i hi)).2.2.1
  have hmap := hp.metadata.registerMap
  rw [registerMapValid, Bool.and_eq_true] at hmap
  have htext : ∀ s : Bytes, ∀ o ∈ [Output.text s], o.Fine := fun s o ho => by
    rw [List.mem_singleton.mp ho]
    trivial
  have hname : ∀ o ∈ [Output.text (I2cJson.text "\x7b\n  \"schema_version\": 2,\n  \"id\": "),Output.quoted p.name], o.Fine := by
    have hplain : Printable p.name := (idValid_plain hp.name).2.2.1
    simpa [Output.Fine] using hplain
  have hdevice : ∀ o ∈ deviceOutput mdio p, o.Fine := by
    have hmodel : Printable (if p.profile.version = 0 then p.name else p.profile.model) := hp.metadata.model.2.2
    have hword : Printable (modernMetadata mdio p).deviceClass := by
      have hall : ∀ s ∈ deviceClasses, Printable s := by decide
      have hclass : classValid (modernMetadata mdio p).deviceClass = true := hp.metadata.deviceClass
      exact hall _ (by simpa [classValid] using hclass)
    unfold deviceOutput
    simp only [List.forall_mem_append]
    refine ⟨⟨?_,memberUnlessEmpty_fine hp.metadata.vendor.2 _⟩,memberUnlessEmpty_fine hp.metadata.label.2 _⟩
    simp only [List.forall_mem_cons, List.not_mem_nil, false_implies, implies_true, and_true, Output.Fine, true_and]
    exact ⟨hmodel,hword⟩
  have hprotocol : ∀ o ∈ protocolOutput mdio p, o.Fine := by
    have hoptions := hp.options
    unfold OptionsOk at hoptions
    unfold protocolOutput
    rw [List.forall_mem_cons]
    refine ⟨trivial,?_⟩
    split
    · rename_i hmdio
      rw [if_pos hmdio] at hoptions
      rw [List.forall_mem_cons, List.forall_mem_append]
      refine ⟨trivial,listed_fine fun r hr separator => ?_,htext _⟩
      simpa [Output.Fine] using hids r (hoptions.2.2.1 r hr)
    · exact htext _
  have hrows : ∀ o ∈ (List.range p.regCount).flatMap (resourceOutput p.profile p.regCount), o.Fine := by
    intro o ho
    obtain ⟨i,hi,ho⟩ := List.mem_flatMap.mp ho
    have hall : ∀ o ∈ resourceOutput p.profile p.regCount i, o.Fine := by
      simpa [resourceOutput, Output.Fine] using hids i (List.mem_range.mp hi)
    exact hall o ho
  have hrules : ∀ rules : List PolicyRule, (∀ r ∈ rules, RuleOk mdio p.regCount p.maxValueCode r) →
      ∀ o ∈ listed (ruleOutput mdio p.profile) rules, o.Fine := fun rules hall =>
    listed_fine fun r hr separator => by
      simpa [ruleOutput, Output.Fine] using hids r.reg (hall r hr).reg
  have hpolicy : ∀ o ∈ policyOutput mdio p, o.Fine := by
    have hactive : ∀ o ∈ listed (ruleOutput mdio p.profile) (DeviceProfile.active p), o.Fine := by
      unfold DeviceProfile.active
      split
      · exact hrules _ hp.whitelist.2
      · exact hrules _ hp.blacklist.2
    have hinactive : ∀ o ∈ listed (ruleOutput mdio p.profile) (DeviceProfile.inactive p), o.Fine := by
      unfold DeviceProfile.inactive
      split
      · exact hrules _ hp.blacklist.2
      · exact hrules _ hp.whitelist.2
    unfold policyOutput
    simp only [List.forall_mem_cons, List.cons_append, List.forall_mem_append]
    refine ⟨trivial,trivial,⟨hactive,trivial,trivial,hinactive⟩,trivial,?_⟩
    exact fun o ho => absurd ho List.not_mem_nil
  have hseeds : ∀ o ∈ listed (seedOutput mdio p.profile) (writtenSeeds mdio p.settings), o.Fine :=
    listed_fine fun s hs separator => by
      simpa [seedOutput, Output.Fine] using hids s.reg (hp.settings.2.2 s hs).1
  unfold outputs
  simp only [List.forall_mem_append]
  exact ⟨⟨⟨⟨⟨⟨⟨⟨⟨⟨⟨hname,memberUnlessEmpty_fine (assetName_printable hmap.1 (by decide)).1 _⟩,
    memberUnlessEmpty_fine (assetName_printable hp.metadata.view (by decide)).1 _⟩,hdevice⟩,htext _⟩,hprotocol⟩,htext _⟩,hrows⟩,
    hpolicy⟩,htext _⟩,hseeds⟩,htext _⟩

/-- A profile that was read is written if there is room for it. -/
theorem format_canonical (hp : Canonical mdio (modern mdio p) (resourceId p.profile)) (cap : ℕ) : format mdio p cap =
    if cap = 0 then .error .malformed
    else if (formatText mdio p).length < cap ∧ (formatText mdio p).length ≤ profileJsonMax then .ok (formatText mdio p)
    else .error .range := by
  have hfine := outputs_fine hp
  have hname : idValid p.name = true := hp.name
  by_cases hcap : cap = 0
  · rw [if_pos hcap, format, if_pos hcap]
  rw [if_neg hcap]
  split
  · rename_i hroom
    exact format_eq_ok.mpr ⟨hname,hfine,hroom.1,hroom.2,rfl⟩
  · rename_i hroom
    unfold format
    rw [if_neg hcap, if_neg (by rw [hname]; decide)]
    refine if_pos ?_
    by_contra hfits
    have hok : format mdio p cap = .ok ((outputs mdio p).foldl Writer.put ⟨cap,[],false⟩).out := by
      rw [format, if_neg hcap, if_neg (by rw [hname]; decide)]
      exact if_neg hfits
    obtain ⟨-,-,hlength,hmax,-⟩ := format_eq_ok.mp hok
    exact hroom ⟨hlength,hmax⟩

theorem format_modern (hp : Canonical mdio (modern mdio p) (resourceId p.profile)) (cap : ℕ) :
    format mdio (modern mdio p) cap = format mdio p cap := by
  rw [format_canonical hp, format_canonical (canonical_modern hp), formatText_modern hp]

theorem modern_of_version (hversion : p.profile.version = 2) (hwritten : writtenSeeds mdio p.settings = p.settings) : modern mdio p =
    { p with profile := { p.profile with
      idOffset := offsets (resourceId p.profile) p.regCount, ids := layout (resourceId p.profile) p.regCount } } := by
  have hne : p.profile.version ≠ 0 := by
    rw [hversion]
    decide
  rw [modern, modernMetadata, hwritten, ← hversion]
  simp only [if_neg hne]

end

/-! ## Registers without identifiers -/

/-- Digits stand for one number. -/
theorem numeral_unique {base m n : ℕ} {Digit : UInt8 → ℕ → Prop} (hdigit : Relator.RightUnique Digit) {ds : Bytes}
    (hm : Numeral base Digit ds m) (hn : Numeral base Digit ds n) : m = n := by
  obtain ⟨values,hvalues,rfl⟩ := hm
  obtain ⟨values',hvalues',rfl⟩ := hn
  rw [hdigit.forall₂ hvalues hvalues']

theorem hexDigit_unique : Relator.RightUnique JsonText.HexDigit := by
  intro c a b ha hb
  unfold JsonText.HexDigit at ha hb
  omega

/-- A register of a profile without a version is named by its address. -/
theorem legacyIds_ok {p : ProfileMetadata} (hversion : p.version ≠ 2) {count : ℕ} (hcount : count ≤ 256) :
    IdsOk (resourceId p) count := by
  have hid : ∀ i, resourceId p i = I2cJson.text "reg_" ++ hexPadded false 2 i := fun i => if_neg hversion
  have hlength : ∀ i < count, (resourceId p i).length = 6 := fun i hi => by
    rw [hid, List.length_append, hexPadded_length (by decide) (by omega)]
    rfl
  refine ⟨fun i hi => ?_,fun i _ j _ heq => ?_,?_⟩
  · have hall : ∀ k : Fin 256, idValid (I2cJson.text "reg_" ++ hexPadded false 2 k) = true := by decide +kernel
    rw [hid]
    exact hall ⟨i,by omega⟩
  · rw [hid, hid] at heq
    have hdigits := List.append_cancel_left heq
    exact numeral_unique hexDigit_unique (hexPadded_numeral false 2 i) (hdigits ▸ hexPadded_numeral false 2 j)
  · have hlayout : ∀ k ≤ count, (layout (resourceId p) k).length = 1 + 7 * k := fun k hk => by
      induction k with
      | zero => rfl
      | succ k ih =>
        rw [layout_succ, List.length_append, List.length_append, ih (by omega), hlength k (by omega), List.length_singleton]
        omega
    rw [hlayout count (Nat.le_refl _)]
    unfold profileIdsCap
    omega

/-! ## What a check of metadata says -/

theorem idsValid_id {p : ProfileMetadata} {count : ℕ} (h : idsValid p count = true) {r : ℕ} (hr : r < count) :
    p.id r = some (textAt p.ids (p.idOffset r)) := by
  induction count with
  | zero => cases hr
  | succ count ih =>
    rw [idsValid, Bool.and_eq_true] at h
    rcases Nat.lt_succ_iff_lt_or_eq.mp hr with hr | rfl
    · exact ih h.1 hr
    · have hlast := h.2
      split at hlast
      · cases hlast
      · rename_i id hid
        rw [hid]
        unfold ProfileMetadata.id at hid
        dsimp only at hid
        split at hid
        · cases hid
        · exact hid.symm

theorem id_canonical {mdio : Bool} {p : DeviceProfile} {ids : ℕ → Name} (hp : Canonical mdio p ids) {i : ℕ} (hi : i < p.regCount) :
    p.profile.id i = some (ids i) := by
  have htext := textAt_layout hi (idValid_plain (hp.identifiers.valid i hi)).2.2.2
  obtain ⟨more,hmore⟩ := layout_split ids hi
  have hoffset : offsets ids p.regCount i = (layout ids i).length := if_pos hi
  have hended : (layout ids p.regCount).drop (offsets ids p.regCount i) = ids i ++ 0 :: more := by
    rw [hoffset, hmore, List.drop_left]
  have hpos : (layout ids i).length ≠ 0 := by
    rw [layout, List.length_cons]
    exact Nat.succ_ne_zero _
  unfold ProfileMetadata.id
  rw [hp.table.1, hp.table.2]
  dsimp only
  rw [if_neg]
  · exact congrArg some htext
  · rw [hended, hoffset]
    simp [hpos]

/-- Each register of a checked profile has the identifier that is written for it. -/
theorem metadataValidate_id {p : ProfileMetadata} {count : ℕ} (h : metadataValidate p count = .ok) (hversion : p.version = 2) {r : ℕ}
    (hr : r < count) : p.id r = some (resourceId p r) := by
  have hne : p.version ≠ 0 := by
    rw [hversion]
    decide
  rw [resourceId_modern hversion]
  refine idsValid_id ?_ hr
  unfold metadataValidate at h
  split_ifs at h with hassets htexts hids
  exact Bool.eq_true_of_not_eq_false hids

/-- Metadata of version 2 with a table of its own passes the check. -/
theorem metadataValidate_canonical {mdio : Bool} {p : DeviceProfile} {ids : ℕ → Name} (hp : Canonical mdio p ids) :
    metadataValidate p.profile p.regCount = .ok := by
  have hids : ∀ k ≤ p.regCount, idsValid p.profile k = true := fun k hk => by
    induction k with
    | zero => rfl
    | succ k ih =>
      rw [idsValid, ih (by omega), id_canonical hp (by omega), Bool.true_and]
      dsimp only
      rw [Bool.and_eq_true, List.all_eq_true]
      refine ⟨hp.identifiers.valid k (by omega),fun j hj => ?_⟩
      have hj' := List.mem_range.mp hj
      rw [id_canonical hp (by omega), bne_iff_ne]
      intro heq
      exact absurd (hp.identifiers.distinct j (by omega) k (by omega) (Option.some.inj heq)) (Nat.ne_of_lt hj')
  have hmetadata := hp.metadata
  have hcount := hp.count.2.trans registers_count
  have hword : p.profile.deviceClass.length < 16 := by
    have hall : ∀ s ∈ deviceClasses, s.length < 16 := by decide
    exact hall _ (by simpa [classValid] using hmetadata.deviceClass)
  have hassets : ¬(i2cMaxRegCount < p.regCount ∨ registerMapValid p.profile.registerMap = false ∨
      assetNameValid p.profile.view jsExtension = false ∨ (p.profile.view ≠ [] ∧ p.profile.registerMap = [])) := by
    rw [hmetadata.registerMap, hmetadata.view]
    rintro (hlarge | hfalse | hfalse | ⟨hview,hmap⟩)
    · exact absurd hlarge (Nat.not_lt.mpr hcount)
    · cases hfalse
    · cases hfalse
    · exact hmetadata.mapped hview hmap
  have htexts : ¬(p.profile.version ≠ 2 ∨ p.regCount = 0 ∨ profileIdsCap < p.profile.ids.length ∨ p.profile.ids.head? ≠ some 0 ∨
      65 ≤ p.profile.vendor.length ∨ 65 ≤ p.profile.model.length ∨ 16 ≤ p.profile.deviceClass.length ∨ 97 ≤ p.profile.label.length ∨
      p.profile.model = [] ∨ classValid p.profile.deviceClass = false) := by
    have hsize := hp.identifiers.size
    rw [hp.table.1, hmetadata.deviceClass]
    rintro (h | h | h | h | h | h | h | h | h | h)
    · exact h hmetadata.version
    · exact absurd h (Nat.ne_of_gt hp.count.1)
    · omega
    · exact h rfl
    · exact absurd hmetadata.vendor.1 (Nat.not_lt.mpr h)
    · exact absurd hmetadata.model.2.1 (Nat.not_lt.mpr h)
    · omega
    · exact absurd hmetadata.label.1 (Nat.not_lt.mpr h)
    · exact hmetadata.model.1 h
    · cases h
  have hversion : p.profile.version ≠ 0 := by
    rw [hmetadata.version]
    decide
  rw [metadataValidate, if_neg hassets, if_neg hversion, if_neg htexts, if_neg (by rw [hids _ (Nat.le_refl _)]; decide)]

end Profile

/-! ## I2C devices -/

theorem byte_toNat {k : ℕ} (h : k < 256) : (UInt8.ofNat k).toNat = k := UInt8.toNat_ofNat_of_lt' h

@[simp] theorem writtenMode_code (mode : PolicyMode) : writtenMode mode.code = mode := by
  cases mode with
  | whitelist => rfl
  | blacklist => rfl

/-- A profile is kept by the configuration of an I2C device. -/
theorem deviceProfile_toI2c {p : DeviceProfile} (haddress : p.address < 256) (hcount : p.regCount ≤ 256) (hoptions : OptionsOk false p)
    (hwhite : ∀ r ∈ p.whitelist, RuleOk false p.regCount p.maxValueCode r)
    (hblack : ∀ r ∈ p.blacklist, RuleOk false p.regCount p.maxValueCode r)
    (hsettings : ∀ s ∈ p.settings, s.reg < p.regCount ∧ s.val ≤ 255) : p.toI2c.deviceProfile = p := by
  obtain ⟨hcode,henabled,hregs,hregDelay,hcycleDelay⟩ : p.maxValueCode ≤ 64 ∧ p.autopollEnabled = false ∧ p.autopollRegs = [] ∧
    p.autopollRegDelayMs = 0 ∧ p.autopollCycleDelayMs = 0 := hoptions
  have hrules : ∀ rules : List PolicyRule, (∀ r ∈ rules, RuleOk false p.regCount p.maxValueCode r) →
      (rules.map fun r => (⟨UInt8.ofNat r.reg,UInt8.ofNat r.val⟩ : I2cRule)).map
        (fun r => (⟨r.reg.toNat,r.val.toNat,255⟩ : PolicyRule)) = rules := fun rules hall => by
    rw [List.map_map]
    refine (List.map_congr_left fun r hr => ?_).trans (List.map_id rules)
    obtain ⟨hreg,hval,-,hkind⟩ := hall r hr
    obtain ⟨hmask,-⟩ := hkind.resolve_left (by decide)
    have hbyte : r.val < 256 := Nat.lt_succ_of_le hval
    simp only [Function.comp_apply, byte_toNat (lt_of_lt_of_le hreg hcount), byte_toNat hbyte, ← hmask, id_eq]
  have hseeds : (p.settings.map fun s => (⟨UInt8.ofNat s.reg,UInt8.ofNat s.val⟩ : I2cRule)).map
      (fun s => (⟨s.reg.toNat,s.val.toNat⟩ : Seed)) = p.settings := by
    rw [List.map_map]
    refine (List.map_congr_left fun s hs => ?_).trans (List.map_id p.settings)
    obtain ⟨hreg,hval⟩ := hsettings s hs
    simp only [Function.comp_apply, byte_toNat (lt_of_lt_of_le hreg hcount), byte_toNat (Nat.lt_succ_of_le hval), id_eq]
  unfold DeviceProfile.toI2c I2cFileConfig.deviceProfile
  dsimp only
  rw [hrules _ hwhite, hrules _ hblack, hseeds, byte_toNat haddress, byte_toNat (by omega), writtenMode_code, ← henabled, ← hregs]
  nth_rewrite 1 [← hregDelay]
  nth_rewrite 1 [← hcycleDelay]
  rfl

theorem deviceProfile_toI2c_canonical {p : DeviceProfile} {ids : ℕ → Name} (hp : Canonical false p ids) : p.toI2c.deviceProfile = p :=
  deviceProfile_toI2c (lt_of_le_of_lt hp.address (by decide)) hp.count.2 hp.options hp.whitelist.2 hp.blacklist.2 hp.settings.2.2

/-- A profile of an I2C device that can be written passes the check of the whole. -/
theorem i2cConfigValidate_canonical {p : DeviceProfile} {ids : ℕ → Name} (hp : Canonical false p ids) :
    i2cConfigValidate p.toI2c = .ok := by
  obtain ⟨hname,hlength,-,-⟩ := idValid_plain hp.name
  obtain ⟨hcode,-⟩ : p.maxValueCode ≤ 64 ∧ _ := hp.options
  have haddress : p.address ≤ 127 := hp.address
  have hcount : p.regCount ≤ 256 := hp.count.2
  have hrules : ∀ rules : List PolicyRule, (∀ r ∈ rules, RuleOk false p.regCount p.maxValueCode r) →
      ∀ r ∈ rules.map fun r => (⟨UInt8.ofNat r.reg,UInt8.ofNat r.val⟩ : I2cRule),
        r.reg.toNat < p.regCount ∧ r.val ≤ UInt8.ofNat p.maxValueCode := fun rules hall r hr => by
    obtain ⟨x,hx,rfl⟩ := List.mem_map.mp hr
    obtain ⟨hreg,-,-,hkind⟩ := hall x hx
    obtain ⟨-,hval⟩ := hkind.resolve_left (by decide)
    rw [UInt8.le_iff_toNat_le, byte_toNat (lt_of_lt_of_le hreg hcount), byte_toNat (by omega), byte_toNat (by omega)]
    exact ⟨hreg,hval⟩
  refine i2cConfigValidate_eq_ok.mpr ⟨⟨hname,hlength,?_,Nat.ne_of_gt hp.count.1,hcount,?_,?_,?_,?_,?_⟩,hrules _ hp.whitelist.2,
    hrules _ hp.blacklist.2,fun s hs => ?_,metadataValidate_canonical hp⟩
  · show UInt8.ofNat p.address ≤ 0x7F
    rw [UInt8.le_iff_toNat_le, byte_toNat (by omega)]
    exact haddress
  · show UInt8.ofNat p.maxValueCode ≤ 64
    rw [UInt8.le_iff_toNat_le, byte_toNat (by omega)]
    exact hcode
  · show PolicyMode.ofCode p.policy.code ≠ none
    rw [ofCode_code]
    exact Option.some_ne_none _
  · exact le_of_eq_of_le (List.length_map _) hp.whitelist.1
  · exact le_of_eq_of_le (List.length_map _) hp.blacklist.1
  · exact le_of_eq_of_le (List.length_map _) hp.settings.1
  · obtain ⟨x,hx,rfl⟩ := List.mem_map.mp hs
    have hreg := (hp.settings.2.2 x hx).1
    show (UInt8.ofNat x.reg).toNat < p.regCount
    rwa [byte_toNat (lt_of_lt_of_le hreg hcount)]

/-- What is written of an I2C device is loaded as its version 2. -/
theorem parseI2cProfile_format {c : I2cFileConfig} {cap : ℕ} {json : Bytes} (hformat : formatI2cProfile c cap = .ok json)
    (hp : Canonical false (modern false c.deviceProfile) (resourceId c.profile)) (hencoded : Encoded (modern false c.deviceProfile)) :
    parseI2cProfile json = .ok (modern false c.deviceProfile).toI2c := by
  unfold formatI2cProfile at hformat
  split at hformat
  · rw [parseI2cProfile, parse_format hformat hp hencoded]
    exact if_pos (i2cConfigValidate_canonical hp)
  · cases hformat

/-- Where the configuration of an accepted I2C profile comes from. -/
theorem parseI2cProfile_accepted {json : Bytes} {c : I2cFileConfig} (h : parseI2cProfile json = .ok c) :
    i2cConfigValidate c = .ok ∧ c = c.deviceProfile.toI2c ∧ c.profile.version = 2 ∧
      writtenSeeds false c.deviceProfile.settings = c.deviceProfile.settings ∧
      Canonical false (modern false c.deviceProfile) (resourceId c.profile) ∧ Encoded (modern false c.deviceProfile) := by
  obtain ⟨p,hp,hc⟩ := bind_eq_ok.mp h
  split at hc
  · rename_i hvalid
    obtain rfl := Except.ok.inj hc
    obtain ⟨hversion,hwritten,hcanonical,hencoded⟩ := parse_accepted hp
    have hsettings : ∀ s ∈ p.settings, s.reg < p.regCount ∧ s.val ≤ 255 := by
      have hall := hcanonical.settings.2.2
      rw [modern] at hall
      dsimp only at hall
      rw [hwritten] at hall
      exact hall
    have hself : p.toI2c.deviceProfile = p :=
      deviceProfile_toI2c (lt_of_le_of_lt hcanonical.address (by decide)) hcanonical.count.2 hcanonical.options hcanonical.whitelist.2
        hcanonical.blacklist.2 hsettings
    rw [hself]
    exact ⟨hvalid,rfl,hversion,hwritten,hcanonical,hencoded⟩
  · cases hc

/-! ## PHYs -/

theorem half_toNat {k : ℕ} (h : k ≤ 65535) : (UInt16.ofNat k).toNat = k := UInt16.toNat_ofNat_of_lt' (Nat.lt_succ_of_le h)

theorem word_toNat {k : ℕ} (h : k ≤ 600000) : (UInt32.ofNat k).toNat = k := UInt32.toNat_ofNat_of_lt' (lt_of_le_of_lt h (by decide))

theorem map_toNat_ofNat {ks : List ℕ} (h : ∀ k ∈ ks, k < 256) : (ks.map UInt8.ofNat).map UInt8.toNat = ks := by
  rw [List.map_map]
  refine (List.map_congr_left fun k hk => ?_).trans (List.map_id ks)
  rw [Function.comp_apply, byte_toNat (h k hk), id_eq]

/-- A profile is kept by the configuration of a PHY. -/
theorem deviceProfile_toMdio {p : DeviceProfile} (haddress : p.address < 256) (hcount : p.regCount ≤ 32) (hoptions : OptionsOk true p)
    (hwhite : ∀ r ∈ p.whitelist, RuleOk true p.regCount p.maxValueCode r)
    (hblack : ∀ r ∈ p.blacklist, RuleOk true p.regCount p.maxValueCode r)
    (hsettings : ∀ s ∈ p.settings, s.reg < p.regCount ∧ s.val ≤ 65535) : p.toMdio.deviceProfile = p := by
  obtain ⟨hcode,-,hregs,-,hregDelay,hcycleDelay⟩ : p.maxValueCode = 0 ∧ p.autopollRegs.Nodup ∧ (∀ r ∈ p.autopollRegs, r < p.regCount) ∧
    p.autopollRegs.length ≤ mdioAutopollRegsMax ∧ p.autopollRegDelayMs ≤ 60000 ∧ p.autopollCycleDelayMs ≤ 600000 := hoptions
  have hrules : ∀ rules : List PolicyRule, (∀ r ∈ rules, RuleOk true p.regCount p.maxValueCode r) →
      (rules.map fun r => (⟨UInt8.ofNat r.reg,UInt16.ofNat r.val,UInt16.ofNat r.mask⟩ : MdioRule)).map
        (fun r => (⟨r.reg.toNat,r.val.toNat,r.mask.toNat⟩ : PolicyRule)) = rules := fun rules hall => by
    rw [List.map_map]
    refine (List.map_congr_left fun r hr => ?_).trans (List.map_id rules)
    obtain ⟨hreg,hval,hmask,-⟩ := hall r hr
    have hbyte : r.reg < 256 := by omega
    simp only [Function.comp_apply, byte_toNat hbyte, half_toNat hval, half_toNat hmask, id_eq]
  have hseeds : (p.settings.map fun s => (⟨UInt8.ofNat s.reg,UInt16.ofNat s.val⟩ : MdioSetting)).map
      (fun s => (⟨s.reg.toNat,s.val.toNat⟩ : Seed)) = p.settings := by
    rw [List.map_map]
    refine (List.map_congr_left fun s hs => ?_).trans (List.map_id p.settings)
    obtain ⟨hreg,hval⟩ := hsettings s hs
    have hbyte : s.reg < 256 := by omega
    simp only [Function.comp_apply, byte_toNat hbyte, half_toNat hval, id_eq]
  have hpoll : (p.autopollRegs.map UInt8.ofNat).map UInt8.toNat = p.autopollRegs := map_toNat_ofNat fun k hk => by
    have hbelow := hregs k hk
    omega
  have hregDelay' : p.autopollRegDelayMs ≤ 600000 := by omega
  unfold DeviceProfile.toMdio MdioPhyConfig.deviceProfile
  dsimp only
  rw [hrules _ hwhite, hrules _ hblack, hseeds, hpoll, byte_toNat haddress, byte_toNat (by omega), writtenMode_code,
    word_toNat hregDelay', word_toNat hcycleDelay, ← hcode]

theorem deviceProfile_toMdio_canonical {p : DeviceProfile} {ids : ℕ → Name} (hp : Canonical true p ids) : p.toMdio.deviceProfile = p :=
  deviceProfile_toMdio (lt_of_le_of_lt hp.address (by decide)) hp.count.2 hp.options hp.whitelist.2 hp.blacklist.2 hp.settings.2.2

theorem safeName_of_idValid {s : Name} (h : idValid s = true) : safeName s mdioNameMax = true := by
  obtain ⟨hne,hlength,-,-⟩ := idValid_plain h
  cases s with
  | nil => exact absurd rfl hne
  | cons c s =>
    rw [idValid, Bool.and_eq_true, Bool.and_eq_true, List.all_eq_true] at h
    have hword : ∀ b ∈ c :: s, (isLower b || digit b || b == 95 || b == 45) = true ∧ b ≠ 46 := fun b hb => by
      refine ⟨h.2 b hb,?_⟩
      rintro rfl
      exact absurd (h.2 46 hb) (by decide)
    have hdots : ∀ t : Name, (∀ b ∈ t, b ≠ 46) → hasDotDot t = false := fun t ht => by
      induction t with
      | nil => rfl
      | cons a t ih =>
        cases t with
        | nil => rfl
        | cons b t =>
          have ha := ht a List.mem_cons_self
          rw [hasDotDot, ih fun b hb => ht b (List.mem_cons_of_mem a hb), beq_eq_false_iff_ne.mpr ha]
          rfl
    rw [safeName, hdots _ fun b hb => (hword b hb).2, Bool.and_eq_true, Bool.and_eq_true, Bool.and_eq_true, List.all_eq_true]
    refine ⟨⟨⟨rfl,fun b hb => ?_⟩,decide_eq_true hlength⟩,rfl⟩
    have hb := (hword b hb).1
    unfold isWord
    simp only [Bool.or_eq_true] at hb ⊢
    tauto

theorem regsCheck_of_nodup {regCount : UInt8} {seen regs : List UInt8} (hbelow : ∀ r ∈ regs, r < regCount) (hnodup : regs.Nodup)
    (hseen : ∀ r ∈ regs, r ∉ seen) : regsCheck regCount seen regs = .ok := by
  induction regs generalizing seen with
  | nil => rfl
  | cons r regs ih =>
    obtain ⟨hr,hrest⟩ := List.nodup_cons.mp hnodup
    rw [regsCheck, if_neg (UInt8.not_le.mpr (hbelow r List.mem_cons_self)), if_neg (hseen r List.mem_cons_self)]
    refine ih (fun x hx => hbelow x (List.mem_cons_of_mem r hx)) hrest fun x hx hmem => ?_
    rcases List.mem_cons.mp hmem with rfl | hmem
    · exact hr hx
    · exact hseen x (List.mem_cons_of_mem r hx) hmem

theorem regsCheck_ofNat {count : ℕ} (hcount : count ≤ 32) {regs : List ℕ} (hbelow : ∀ r ∈ regs, r < count) (hnodup : regs.Nodup) :
    regsCheck (UInt8.ofNat count) [] (regs.map UInt8.ofNat) = .ok := by
  refine regsCheck_of_nodup (fun x hx => ?_) (List.Nodup.map_on (fun a ha b hb heq => ?_) hnodup) fun r _ hr => nomatch hr
  · obtain ⟨r,hr,rfl⟩ := List.mem_map.mp hx
    have hr' := hbelow r hr
    rw [UInt8.lt_iff_toNat_lt, byte_toNat (by omega), byte_toNat (by omega)]
    exact hr'
  · have ha' := hbelow a ha
    have hb' := hbelow b hb
    have hnat := congrArg UInt8.toNat heq
    rwa [byte_toNat (by omega), byte_toNat (by omega)] at hnat

/-- A profile of a PHY that can be written passes the check of the whole. -/
theorem mdioConfigValidate_canonical {p : DeviceProfile} {ids : ℕ → Name} (hp : Canonical true p ids) :
    mdioConfigValidate p.toMdio = .ok := by
  obtain ⟨-,hnodup,hregs,hfew,hregDelay,hcycleDelay⟩ : p.maxValueCode = 0 ∧ p.autopollRegs.Nodup ∧
    (∀ r ∈ p.autopollRegs, r < p.regCount) ∧ p.autopollRegs.length ≤ mdioAutopollRegsMax ∧ p.autopollRegDelayMs ≤ 60000 ∧
    p.autopollCycleDelayMs ≤ 600000 := hp.options
  have haddress : p.address ≤ 31 := hp.address
  have hcount : p.regCount ≤ 32 := hp.count.2
  have hpos := hp.count.1
  have hcountNat : (UInt8.ofNat p.regCount).toNat = p.regCount := byte_toNat (by omega)
  have hrules : ∀ rules : List PolicyRule, (∀ r ∈ rules, RuleOk true p.regCount p.maxValueCode r) →
      ∀ r ∈ rules.map fun r => (⟨UInt8.ofNat r.reg,UInt16.ofNat r.val,UInt16.ofNat r.mask⟩ : MdioRule),
        r.reg < UInt8.ofNat p.regCount := fun rules hall r hr => by
    obtain ⟨x,hx,rfl⟩ := List.mem_map.mp hr
    have hreg := (hall x hx).reg
    rw [UInt8.lt_iff_toNat_lt, hcountNat, byte_toNat (by omega)]
    exact hreg
  have hseeds : (p.toMdio.settings.map (·.reg)) = (p.settings.map Seed.reg).map UInt8.ofNat := by
    rw [DeviceProfile.toMdio, List.map_map, List.map_map]
    rfl
  have hbelow : ∀ r ∈ p.settings.map Seed.reg, r < p.regCount := fun r hr => by
    obtain ⟨s,hs,rfl⟩ := List.mem_map.mp hr
    exact (hp.settings.2.2 s hs).1
  refine mdioConfigValidate_eq_ok.mpr ⟨⟨safeName_of_idValid hp.name,Or.inl rfl,?_,?_,?_,?_,?_,?_,?_,?_,?_,?_⟩,hrules _ hp.whitelist.2,
    hrules _ hp.blacklist.2,regsCheck_ofNat hcount hregs hnodup,?_,?_⟩
  · show UInt8.ofNat p.address ≤ 31
    rw [UInt8.le_iff_toNat_le, byte_toNat (by omega)]
    exact haddress
  · show UInt8.ofNat p.regCount ≠ 0
    intro hzero
    rw [hzero] at hcountNat
    exact absurd hcountNat (Nat.ne_of_lt hpos)
  · show UInt8.ofNat p.regCount ≤ 32
    rw [UInt8.le_iff_toNat_le, hcountNat]
    exact hcount
  · show PolicyMode.ofCode p.policy.code ≠ none
    rw [ofCode_code]
    exact Option.some_ne_none _
  · exact le_of_eq_of_le (List.length_map _) hp.whitelist.1
  · exact le_of_eq_of_le (List.length_map _) hp.blacklist.1
  · exact le_of_eq_of_le (List.length_map _) hp.settings.1
  · exact le_of_eq_of_le (List.length_map _) hfew
  · show UInt32.ofNat p.autopollRegDelayMs ≤ 60000
    rw [UInt32.le_iff_toNat_le, word_toNat (by omega)]
    exact hregDelay
  · show UInt32.ofNat p.autopollCycleDelayMs ≤ 600000
    rw [UInt32.le_iff_toNat_le, word_toNat hcycleDelay]
    exact hcycleDelay
  · rw [hseeds]
    exact regsCheck_ofNat hcount hbelow hp.settings.2.1
  · show metadataValidate p.profile (UInt8.ofNat p.regCount).toNat = .ok
    rw [hcountNat]
    exact metadataValidate_canonical hp

/-- What is written of a PHY is loaded as its version 2. -/
theorem parseMdioProfile_format {c : MdioPhyConfig} {cap : ℕ} {json : Bytes} (hformat : formatMdioProfile c cap = .ok json)
    (hp : Canonical true (modern true c.deviceProfile) (resourceId c.profile)) (hencoded : Encoded (modern true c.deviceProfile)) :
    parseMdioProfile json = .ok (modern true c.deviceProfile).toMdio := by
  unfold formatMdioProfile at hformat
  split at hformat
  · rw [parseMdioProfile, parse_format hformat hp hencoded]
    exact if_pos (mdioConfigValidate_canonical hp)
  · cases hformat

/-- Where the configuration of an accepted profile of a PHY comes from. -/
theorem parseMdioProfile_accepted {json : Bytes} {c : MdioPhyConfig} (h : parseMdioProfile json = .ok c) :
    mdioConfigValidate c = .ok ∧ c = c.deviceProfile.toMdio ∧ c.profile.version = 2 ∧
      writtenSeeds true c.deviceProfile.settings = c.deviceProfile.settings ∧
      Canonical true (modern true c.deviceProfile) (resourceId c.profile) ∧ Encoded (modern true c.deviceProfile) := by
  obtain ⟨p,hp,hc⟩ := bind_eq_ok.mp h
  split at hc
  · rename_i hvalid
    obtain rfl := Except.ok.inj hc
    obtain ⟨hversion,hwritten,hcanonical,hencoded⟩ := parse_accepted hp
    have hself : p.toMdio.deviceProfile = p :=
      deviceProfile_toMdio (lt_of_le_of_lt hcanonical.address (by decide)) hcanonical.count.2 hcanonical.options hcanonical.whitelist.2
        hcanonical.blacklist.2 hcanonical.settings.2.2
    rw [hself]
    exact ⟨hvalid,rfl,hversion,hwritten,hcanonical,hencoded⟩
  · cases hc

end Bvstk.Config
