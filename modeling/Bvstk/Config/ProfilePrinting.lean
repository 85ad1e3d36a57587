import Bvstk.Config.ProfileParts
import Bvstk.Config.ProfileText

/-! # Documents in any layout

The document of a profile, printed with any blanks between its parts. What `format` writes is one
of these texts.
-/
namespace Bvstk.Config.Profile
open JsonText (Blank GoodList Layout Means Tree goodList_iff goodMembers_iff lay_members memberText printList_eq print_means)
open I2cJson (decimal)

/-! ## Layouts -/

/-- The blanks of the object on top, of the list of registers and of all else, and behind colons. -/
structure Spacing where
  root : Layout
  rows : Layout
  inline : Layout
  gap : Bytes

structure Spacing.Blank (S : Spacing) : Prop where
  root : S.root.Blank
  rows : S.rows.Blank
  inline : S.inline.Blank
  gap : JsonText.Blank S.gap

/-- A value on one line. -/
def Spacing.print (S : Spacing) (t : Tree) : Bytes := t.print token S.inline S.gap

/-- The registers, one on a line. -/
def Spacing.rowsText (S : Spacing) (ids : ℕ → Name) (count : ℕ) : Bytes :=
  91 :: (S.rows.lay ((List.range count).map fun i => S.print (resourceTree ids i)) ++ [93])

/-- The value of a member of the document. -/
def Spacing.fieldText (S : Spacing) (ids : ℕ → Name) (count : ℕ) (f : String × Tree) : Bytes :=
  if f.1 = "resources" then S.rowsText ids count else S.print f.2

/-- The document without anything around it. -/
def Spacing.documentText (S : Spacing) (mdio : Bool) (p : DeviceProfile) (ids : ℕ → Name) : Bytes :=
  123 :: (S.root.lay ((present (documentFields mdio p ids)).map fun f =>
    memberText (token (I2cJson.text f.1)) S.gap (S.fieldText ids p.regCount f)) ++ [125])

/-! ## Trees that can be printed -/

/-- Texts of a profile that are in UTF-8, as they are in a document. -/
structure Encoded (p : DeviceProfile) : Prop where
  model : Written p.profile.model
  vendor : Written p.profile.vendor
  label : Written p.profile.label

section
variable {n : ℕ}

theorem good_object {keys : List String} (hkeys : Table keys) {fs : List (String × Option Tree)} (hmem : ∀ e ∈ fs, e.1 ∈ keys)
    (h : ∀ e ∈ present fs, e.2.Good Written n) : (objectOf fs).Good Written (n + 1) := by
  rw [objectOf, Tree.Good, goodMembers_iff]
  intro m hm
  obtain ⟨f,hf,hmap⟩ := List.mem_filterMap.mp hm
  obtain ⟨t,ht,rfl⟩ := Option.map_eq_some_iff.mp hmap
  exact ⟨(hkeys.plain _ (hmem f hf)).written,h (f.1,t) (mem_present.mpr (ht ▸ hf))⟩

theorem good_str {s : String} (h : Ascii (I2cJson.text s)) : (str s).Good Written n := by
  rw [str, Tree.Good]
  exact h.written

theorem good_string {s : Name} (h : Written s) : (Tree.string s).Good Written n := by rwa [Tree.Good]

theorem good_num (k : ℕ) : (num k).Good Written n := by
  rw [num, Tree.Good]
  exact Or.inr (decimal_number k)

theorem good_bool (b : Bool) : (boolTree b).Good Written n := by
  rw [boolTree, Tree.Good]
  left
  cases b with
  | true => decide
  | false => decide

theorem good_array {ts : List Tree} (h : ∀ t ∈ ts, t.Good Written n) : (Tree.array ts).Good Written (n + 1) := by
  rw [Tree.Good]
  exact (goodList_iff Written).mpr h

theorem hexText_ascii (digits k : ℕ) : Ascii (hexText digits k) := by
  intro b hb
  rw [hexText, List.mem_cons, List.mem_cons] at hb
  rcases hb with rfl | rfl | hb
  · decide
  · decide
  · obtain ⟨d,hd⟩ := (hexPadded_numeral true digits k).digit b hb
    refine ⟨(hexDigit_plain hd).1,?_⟩
    rw [UInt8.lt_iff_toNat_lt]
    unfold JsonText.HexDigit at hd
    change b.toNat < 127
    omega

theorem good_hex (digits k : ℕ) : (hexTree digits k).Good Written n := good_string (hexText_ascii digits k).written

theorem good_unlessEmpty {s : Name} (h : Written s) {t : Tree} (ht : unlessEmpty s = some t) : t.Good Written n := by
  unfold unlessEmpty at ht
  split at ht
  · cases ht
  · cases ht
    exact good_string h

theorem forall_present {fs : List (String × Option Tree)} {P : Tree → Prop} (h : ∀ e ∈ fs, ∀ t, e.2 = some t → P t) :
    ∀ e ∈ present fs, P e.2 := fun e he => h _ (mem_present.mp he) e.2 rfl

theorem idValid_ascii {s : Name} (h : idValid s = true) : Ascii s := by
  have hbyte : ∀ k : Fin 256, (isLower (UInt8.ofNat k) || digit (UInt8.ofNat k) || UInt8.ofNat k == 95 || UInt8.ofNat k == 45) = true →
      32 ≤ UInt8.ofNat k ∧ UInt8.ofNat k < 127 := by
    decide +kernel
  cases s with
  | nil => cases h
  | cons c s =>
    rw [idValid, Bool.and_eq_true, Bool.and_eq_true, List.all_eq_true] at h
    intro b hb
    have hk := hbyte ⟨b.toNat,b.toNat_lt⟩
    rw [UInt8.ofNat_toNat] at hk
    exact hk (h.2 b hb)

theorem good_device {p : DeviceProfile} (hp : Encoded p) (hclass : classValid p.profile.deviceClass = true) :
    (deviceTree p.profile).Good Written (n + 1) := by
  have hword : Ascii p.profile.deviceClass := by
    have hall : ∀ s ∈ deviceClasses, Ascii s := by decide
    exact hall _ (by simpa [classValid] using hclass)
  refine good_object tables.device (by simp [deviceKeys]) (forall_present ?_)
  simp only [List.forall_mem_cons, List.not_mem_nil, false_implies, implies_true, and_true, Option.some.injEq, forall_eq']
  exact ⟨good_string hp.model,good_string hword.written,fun t ht => good_unlessEmpty hp.vendor ht,
    fun t ht => good_unlessEmpty hp.label ht⟩

theorem good_transport {mdio : Bool} {address : ℕ} : (transportTree mdio address).Good Written (n + 1) := by
  refine good_object tables.transport (by simp [transportKeys]) (forall_present ?_)
  simp only [List.forall_mem_cons, List.not_mem_nil, false_implies, implies_true, and_true, Option.some.injEq, forall_eq']
  refine ⟨?_,?_,good_hex 2 address,fun t ht => ?_⟩
  · cases mdio with
    | true => exact good_str (by decide)
    | false => exact good_str (by decide)
  · cases mdio with
    | true => exact good_str (by decide)
    | false => exact good_str (by decide)
  · cases mdio with
    | true => cases ht
    | false =>
      cases ht
      exact good_num 7

theorem good_options {mdio : Bool} {p : DeviceProfile} {ids : ℕ → Name} (hids : ∀ r ∈ p.autopollRegs, Written (ids r)) :
    (optionsTree mdio p ids).Good Written (n + 2) := by
  cases mdio with
  | true =>
    refine good_object tables.option (by simp [optionKeys]) (forall_present ?_)
    simp only [List.forall_mem_cons, List.not_mem_nil, false_implies, implies_true, and_true, Option.some.injEq, forall_eq']
    refine ⟨good_bool _,good_num _,good_num _,good_array fun t ht => ?_⟩
    obtain ⟨r,hr,rfl⟩ := List.mem_map.mp ht
    exact good_string (hids r hr)
  | false =>
    refine good_object tables.option (by simp [optionKeys]) (forall_present ?_)
    simp only [List.forall_mem_cons, List.not_mem_nil, false_implies, implies_true, and_true, Option.some.injEq, forall_eq']
    exact ⟨good_hex 2 _,good_bool true⟩

theorem good_protocol {mdio : Bool} {p : DeviceProfile} {ids : ℕ → Name} (hids : ∀ r ∈ p.autopollRegs, Written (ids r)) :
    (protocolTree mdio p ids).Good Written (n + 3) := by
  refine good_object tables.protocol (by simp [protocolKeys]) (forall_present ?_)
  simp only [List.forall_mem_cons, List.not_mem_nil, false_implies, implies_true, and_true, Option.some.injEq, forall_eq']
  refine ⟨?_,good_options hids⟩
  cases mdio with
  | true => exact good_str (by decide)
  | false => exact good_str (by decide)

theorem good_mode {s : String} (h : Ascii (I2cJson.text s)) : (modeTree s).Good Written (n + 1) := by
  refine good_object tables.mode (by simp [modeKeys]) (forall_present ?_)
  simp only [List.forall_mem_cons, List.not_mem_nil, false_implies, implies_true, and_true, Option.some.injEq, forall_eq']
  exact good_str h

theorem good_defaults (mdio : Bool) : (defaultsTree mdio).Good Written (n + 3) := by
  refine good_object tables.defaults (by simp [defaultsKeys]) (forall_present ?_)
  simp only [List.forall_mem_cons, List.not_mem_nil, false_implies, implies_true, and_true, Option.some.injEq, forall_eq']
  refine good_object tables.resource (by simp [resourceKeys]) (forall_present ?_)
  simp only [List.forall_mem_cons, List.not_mem_nil, false_implies, implies_true, and_true, Option.some.injEq, forall_eq']
  exact ⟨good_num _,good_str (by decide),good_hex _ _,good_mode (by decide),good_mode (by decide)⟩

theorem good_resource {ids : ℕ → Name} {i : ℕ} (hid : Written (ids i)) : (resourceTree ids i).Good Written (n + 1) := by
  refine good_object tables.resource (by simp [resourceKeys]) (forall_present ?_)
  simp only [List.forall_mem_cons, List.not_mem_nil, false_implies, implies_true, and_true, Option.some.injEq, forall_eq']
  exact ⟨good_string hid,good_str (by decide),good_hex 2 i⟩

theorem good_rule {mdio : Bool} {ids : ℕ → Name} {r : PolicyRule} (hid : Written (ids r.reg)) :
    (ruleTree mdio ids r).Good Written (n + 2) := by
  refine good_object tables.rule (by simp [ruleKeys]) (forall_present ?_)
  simp only [List.forall_mem_cons, List.not_mem_nil, false_implies, implies_true, and_true, Option.some.injEq, forall_eq']
  refine ⟨good_string hid,good_object tables.matching (by simp [matchKeys]) (forall_present ?_)⟩
  simp only [List.forall_mem_cons, List.not_mem_nil, false_implies, implies_true, and_true, Option.some.injEq, forall_eq']
  exact ⟨good_hex _ _,good_hex _ _⟩

theorem good_rules {mdio : Bool} {ids : ℕ → Name} {rules : List PolicyRule} (hids : ∀ r ∈ rules, Written (ids r.reg)) :
    (Tree.array (rules.map (ruleTree mdio ids))).Good Written (n + 3) := by
  refine good_array fun t ht => ?_
  obtain ⟨r,hr,rfl⟩ := List.mem_map.mp ht
  exact good_rule (hids r hr)

theorem good_policy {mdio : Bool} {p : DeviceProfile} {ids : ℕ → Name} (hwhite : ∀ r ∈ p.whitelist, Written (ids r.reg))
    (hblack : ∀ r ∈ p.blacklist, Written (ids r.reg)) : (policyTree mdio p ids).Good Written (n + 5) := by
  refine good_object tables.policy (by simp [policyKeys]) (forall_present ?_)
  simp only [List.forall_mem_cons, List.not_mem_nil, false_implies, implies_true, and_true, Option.some.injEq, forall_eq']
  constructor
  · refine good_object tables.policyEntry (by simp [policyEntryKeys]) (forall_present ?_)
    simp only [List.forall_mem_cons, List.not_mem_nil, false_implies, implies_true, and_true, Option.some.injEq, forall_eq']
    exact ⟨good_str (by decide),good_array fun t ht => absurd ht List.not_mem_nil⟩
  · refine good_object tables.policyEntry (by simp [policyEntryKeys]) (forall_present ?_)
    simp only [List.forall_mem_cons, List.not_mem_nil, false_implies, implies_true, and_true, Option.some.injEq, forall_eq']
    unfold DeviceProfile.active DeviceProfile.inactive
    cases p.policy with
    | whitelist => exact ⟨good_str (by decide),good_rules hwhite,good_rules hblack⟩
    | blacklist => exact ⟨good_str (by decide),good_rules hblack,good_rules hwhite⟩

theorem good_settings {mdio : Bool} {p : DeviceProfile} {ids : ℕ → Name} (hids : ∀ s ∈ p.settings, Written (ids s.reg)) :
    (settingsTree mdio p ids).Good Written (n + 3) := by
  refine good_object tables.settings (by simp [settingsKeys]) (forall_present ?_)
  simp only [List.forall_mem_cons, List.not_mem_nil, false_implies, implies_true, and_true, Option.some.injEq, forall_eq']
  refine ⟨good_array (by simp),good_array fun t ht => ?_,good_bool false⟩
  obtain ⟨s,hs,rfl⟩ := List.mem_map.mp ht
  refine good_object tables.seed (by simp [seedKeys]) (forall_present ?_)
  simp only [List.forall_mem_cons, List.not_mem_nil, false_implies, implies_true, and_true, Option.some.injEq, forall_eq']
  exact ⟨good_string (hids s hs),good_hex _ _⟩

theorem good_observability : observabilityTree.Good Written (n + 1) := by
  refine good_object tables.observe (by simp [observeKeys]) (forall_present ?_)
  simp only [List.forall_mem_cons, List.not_mem_nil, false_implies, implies_true, and_true, Option.some.injEq, forall_eq']
  exact ⟨good_bool true,good_bool true⟩

end

/-! ## The document means its tree -/

section
variable {mdio : Bool} {p : DeviceProfile} {ids : ℕ → Name}

theorem asset_written {s extension : Name} (h : assetNameValid s extension = true) (hextension : Ascii extension) : Written s := by
  have hbyte : ∀ k : Fin 256, isWord (UInt8.ofNat k) = true → 32 ≤ UInt8.ofNat k ∧ UInt8.ofNat k < 127 := by
    decide +kernel
  rw [assetNameValid, Bool.and_eq_true, Bool.or_eq_true] at h
  rcases h.2 with hnil | h
  · rw [beq_iff_eq.mp hnil]
    exact ⟨.nil,fun _ hb => absurd hb List.not_mem_nil⟩
  · rw [Bool.and_eq_true, Bool.and_eq_true, beq_iff_eq, List.all_eq_true] at h
    refine Ascii.written fun b hb => ?_
    rw [← List.take_append_drop (s.length - extension.length) s, List.mem_append, h.1.2] at hb
    rcases hb with hb | hb
    · have hk := hbyte ⟨b.toNat,b.toNat_lt⟩
      rw [UInt8.ofNat_toNat] at hk
      exact hk (h.2 b hb)
    · exact hextension b hb

/-- Each member but the registers can be printed on one line. -/
theorem good_fields (hp : Canonical mdio p ids) (hencoded : Encoded p) :
    ∀ f ∈ present (documentFields mdio p ids), f.1 ≠ "resources" → f.2.Good Written 15 := by
  have hids : ∀ i < p.regCount, Written (ids i) := fun i hi => (idValid_ascii (hp.identifiers.valid i hi)).written
  have hmap := hp.metadata.registerMap
  rw [registerMapValid, Bool.and_eq_true] at hmap
  have hpoll : ∀ r ∈ p.autopollRegs, Written (ids r) := by
    have hoptions := hp.options
    unfold OptionsOk at hoptions
    split at hoptions
    · exact fun r hr => hids r (hoptions.2.2.1 r hr)
    · rw [hoptions.2.2.1]
      exact fun r hr => absurd hr List.not_mem_nil
  have hall : ∀ f ∈ documentFields mdio p ids, f.1 ≠ "resources" → ∀ t, f.2 = some t → t.Good Written 15 := by
    simp only [documentFields, List.forall_mem_cons, List.not_mem_nil, false_implies, implies_true, and_true, Option.some.injEq,
      forall_eq', ne_eq]
    exact ⟨fun _ => good_num 2,fun _ => good_string (idValid_ascii hp.name).written,
      fun _ t ht => good_unlessEmpty (asset_written hmap.1 (by decide)) ht,
      fun _ t ht => good_unlessEmpty (asset_written hp.metadata.view (by decide)) ht,
      fun _ => good_device hencoded hp.metadata.deviceClass,fun _ => good_transport,fun _ => good_protocol hpoll,
      fun _ => good_defaults mdio,fun h => absurd trivial h,
      fun _ => good_policy (fun r hr => hids _ (hp.whitelist.2 r hr).reg) fun r hr => hids _ (hp.blacklist.2 r hr).reg,
      fun _ => good_settings fun s hs => hids _ (hp.settings.2.2 s hs).1,fun _ => good_observability⟩
  exact fun f hf hne => hall _ (mem_present.mp hf) hne f.2 rfl

/-- The document of a profile means its tree, in any layout. -/
theorem documentText_means {S : Spacing} (hS : S.Blank) (hp : Canonical mdio p ids) (hencoded : Encoded p) :
    Means Denoting depthMax (documentTree mdio p ids) (S.documentText mdio p ids) := by
  have hprint : ∀ {n : ℕ} (t : Tree), t.Good Written n → Means Denoting n t (S.print t) := fun t ht =>
    print_means hS.inline hS.gap quotes_token t ht
  have hrows : Means Denoting 15 (.array ((List.range p.regCount).map (resourceTree ids))) (S.rowsText ids p.regCount) := by
    have hes : ∀ e ∈ (List.range p.regCount).map fun i => (resourceTree ids i,S.print (resourceTree ids i)),
        Means Denoting 14 e.1 e.2 := fun e he => by
      obtain ⟨i,hi,rfl⟩ := List.mem_map.mp he
      exact hprint _ (good_resource (idValid_ascii (hp.identifiers.valid i (List.mem_range.mp hi))).written)
    have harray := Means.lay_array hS.rows _ hes
    rw [List.map_map, List.map_map] at harray
    exact harray
  have hresources : ∀ f ∈ present (documentFields mdio p ids), f.1 = "resources" →
      f.2 = .array ((List.range p.regCount).map (resourceTree ids)) := by
    have hall : ∀ f ∈ documentFields mdio p ids, f.1 = "resources" →
        ∀ t, f.2 = some t → t = .array ((List.range p.regCount).map (resourceTree ids)) := by
      simp [documentFields]
    exact fun f hf hkey => hall _ (mem_present.mp hf) hkey f.2 rfl
  have hms : ∀ m ∈ (present (documentFields mdio p ids)).map fun f => ((I2cJson.text f.1,f.2),S.fieldText ids p.regCount f),
      Written m.1.1 ∧ Means Denoting 15 m.1.2 m.2 := fun m hm => by
    obtain ⟨f,hf,rfl⟩ := List.mem_map.mp hm
    constructor
    · have hkey : f.1 ∈ rootKeys := by
        have hall : ∀ f ∈ documentFields mdio p ids, f.1 ∈ rootKeys := by simp [documentFields, rootKeys]
        exact hall _ (mem_present.mp hf)
      exact (tables.root.plain _ hkey).written
    · dsimp only
      rw [Spacing.fieldText]
      split
      · rename_i hkey
        rw [hresources f hf hkey]
        exact hrows
      · rename_i hkey
        exact hprint _ (good_fields hp hencoded f hf hkey)
  have hobject := lay_members hS.root hS.gap quotes_token _ hms
  rw [List.map_map, List.map_map] at hobject
  have htree : documentTree mdio p ids = .object ((present (documentFields mdio p ids)).map fun f => (I2cJson.text f.1,f.2)) := by
    rw [documentTree, objectOf, present, List.map_filterMap]
    simp only [Option.map_map]
    rfl
  rw [htree]
  exact hobject

/-- A text that means the document of a profile is read as this profile, whatever its blanks and the
spelling of its strings, if it is short enough. -/
theorem parse_meaning (hp : Canonical mdio p ids) {view before after : Bytes} (hview : Means Denoting depthMax (documentTree mdio p ids) view)
    (hbefore : Blank before) (hafter : Blank after) (hlength : (before ++ (view ++ after)).length ≤ profileJsonMax) :
    parse mdio (before ++ (view ++ after)) = .ok p := by
  refine parse_document hp ?_
  rw [document_means hbefore hafter hview rfl hlength]
  exact .some hview

/-- A PHY with two registers and one rule, which is inactive. -/
def sampleIds (i : ℕ) : Name := I2cJson.text (if i = 0 then "control" else "status")

def sampleProfile : DeviceProfile where
  name := I2cJson.text "port"
  address := 3
  regCount := 2
  maxValueCode := 0
  policy := .whitelist
  autopollEnabled := true
  autopollRegs := [1]
  autopollRegDelayMs := 10
  autopollCycleDelayMs := 50
  whitelist := []
  blacklist := [⟨0,0x8000,0x8000⟩]
  settings := [⟨0,0x3100⟩]
  profile := ⟨2,[],I2cJson.text "port \"3\"",I2cJson.text "phy",[],[],[],offsets sampleIds 2,layout sampleIds 2⟩

theorem sample_canonical : Canonical true sampleProfile sampleIds := by
  have hids : IdsOk sampleIds 2 := ⟨by decide,by decide,by decide⟩
  have hmetadata : MetadataOk sampleProfile.profile :=
    ⟨rfl,by decide,by decide,by decide,by decide,by decide,by decide,fun hview => absurd rfl hview⟩
  have hrule : RuleOk true 2 0 ⟨0,0x8000,0x8000⟩ := ⟨by decide,by decide,by decide,Or.inl rfl⟩
  constructor
  · decide
  · exact hmetadata
  · decide
  · exact ⟨rfl,by decide,by decide,by decide,by decide,by decide⟩
  · decide
  · exact hids
  · exact ⟨rfl,rfl⟩
  · exact ⟨by decide,fun r hr => nomatch hr⟩
  · exact ⟨by decide,fun r hr => List.mem_singleton.mp hr ▸ hrule⟩
  · decide

theorem sample_encoded : Encoded sampleProfile := by
  have hmodel : Ascii sampleProfile.profile.model := by decide
  have hnil : Ascii [] := fun b hb => nomatch hb
  exact ⟨hmodel.written,hnil.written,hnil.written⟩

/-- No blanks at all. -/
def compact : Spacing := ⟨⟨[],[],[]⟩,⟨[],[],[]⟩,⟨[],[],[]⟩,[]⟩

theorem parse_meaning_sample : parse true ([9] ++ (compact.documentText true sampleProfile sampleIds ++ [10])) = .ok sampleProfile := by
  have hcompact : compact.Blank := ⟨⟨.nil,.nil,.nil⟩,⟨.nil,.nil,.nil⟩,⟨.nil,.nil,.nil⟩,.nil⟩
  have hbefore : Blank [9] := by decide
  have hafter : Blank [10] := by decide
  exact parse_meaning sample_canonical (documentText_means hcompact sample_canonical sample_encoded) hbefore hafter
    (by decide +kernel)

/-- What `parse` reads in any layout. -/
theorem parse_documentText {S : Spacing} (hS : S.Blank) (hp : Canonical mdio p ids) (hencoded : Encoded p) {before after : Bytes}
    (hbefore : Blank before) (hafter : Blank after)
    (hlength : (before ++ (S.documentText mdio p ids ++ after)).length ≤ profileJsonMax) :
    parse mdio (before ++ (S.documentText mdio p ids ++ after)) = .ok p :=
  parse_meaning hp (documentText_means hS hp hencoded) hbefore hafter hlength

end

end Bvstk.Config.Profile
