import Bvstk.Config.ProfileRoundTrip

/-! # Room for profiles

How long the text of a profile can become. The buffer that a file is written from is one byte
longer than the longest file.
-/
namespace Bvstk.Config
open Profile
open I2cJson (decimal)

namespace Profile

/-- The bytes of some calls. -/
def size (os : List Output) : ℕ := (os.flatMap Output.bytes).length

@[simp] theorem size_nil : size [] = 0 := rfl

@[simp] theorem size_append (os os' : List Output) : size (os ++ os') = size os + size os' := by
  rw [size, List.flatMap_append, List.length_append, ← size, ← size]

@[simp] theorem size_cons (o : Output) (os : List Output) : size (o :: os) = o.bytes.length + size os := by
  rw [size, List.flatMap_cons, List.length_append, ← size]

theorem token_length_le (s : Name) : (token s).length ≤ 2 * s.length + 2 := by
  have hescape : (s.flatMap escape).length ≤ 2 * s.length := by
    induction s with
    | nil => exact Nat.le_refl _
    | cons c s ih =>
      have hone : (escape c).length ≤ 2 := by
        unfold escape
        split
        · exact Nat.le_refl _
        · exact Nat.le_succ 1
      rw [List.flatMap_cons, List.length_append, List.length_cons]
      omega
  rw [token, List.length_cons, List.length_append, List.length_singleton]
  omega

theorem token_id_length {s : Name} (h : idValid s = true) : (token s).length = s.length + 2 := by
  have hplain : Unescaped s := fun b hb => by
    cases s with
    | nil => cases hb
    | cons c s =>
      rw [idValid, Bool.and_eq_true, Bool.and_eq_true, List.all_eq_true] at h
      constructor
      · rintro rfl
        exact absurd (h.2 34 hb) (by decide)
      · rintro rfl
        exact absurd (h.2 92 hb) (by decide)
  rw [token_plain hplain, List.length_cons, List.length_append, List.length_singleton]

theorem token_id_le {s : Name} (h : idValid s = true) : (token s).length ≤ 33 := by
  have hlength := (idValid_plain h).2.1
  rw [token_id_length h]
  omega

theorem hexText_length {digits n : ℕ} (hdigits : 0 < digits) (h : n < 16 ^ digits) : (hexText digits n).length = digits + 2 := by
  rw [hexText, List.length_cons, List.length_cons, hexPadded_length hdigits h]

theorem decimal_length {n : ℕ} (h : n ≤ 600000) : (decimal n).length ≤ 6 := by
  rw [decimal, List.length_map]
  exact (Nat.length_toDigits_le_iff (by decide) (by decide)).mpr (by omega)

/-- A list of items of at most `bound` bytes, each with what stands in front of it. -/
theorem size_listed {α : Type} {item : Bytes → α → List Output} {xs : List α} {bound : ℕ}
    (h : ∀ x ∈ xs, ∀ separator : Bytes, separator.length ≤ 2 → size (item separator x) ≤ bound) : size (listed item xs) ≤ bound * xs.length := by
  have hmany : ∀ ys : List α, (∀ y ∈ ys, size (item (I2cJson.text ", ") y) ≤ bound) →
      size (ys.flatMap (item (I2cJson.text ", "))) ≤ bound * ys.length := fun ys hys => by
    induction ys with
    | nil => exact Nat.le_refl _
    | cons y ys ih =>
      obtain ⟨hy,hys⟩ := List.forall_mem_cons.mp hys
      have hrest := ih hys
      rw [List.flatMap_cons, size_append, List.length_cons, Nat.mul_succ]
      omega
  cases xs with
  | nil => exact Nat.le_refl _
  | cons x xs =>
    obtain ⟨hx,hxs⟩ := List.forall_mem_cons.mp h
    have hfirst := hx [] (by decide)
    have hrest := hmany xs fun y hy => hxs y hy _ (by decide)
    rw [listed, size_append, List.length_cons, Nat.mul_succ]
    omega

section
variable {mdio : Bool} {p : DeviceProfile}

theorem digits_le (mdio : Bool) : 0 < width mdio / 4 ∧ width mdio / 4 ≤ 4 := by
  cases mdio with
  | true => decide
  | false => decide

theorem size_rule (hp : Canonical mdio (modern mdio p) (resourceId p.profile)) {r : PolicyRule}
    (hr : RuleOk mdio p.regCount p.maxValueCode r) {separator : Bytes} (hseparator : separator.length ≤ 2) :
    size (ruleOutput mdio p.profile separator r) ≤ 89 + 2 * (width mdio / 4) := by
  have hid := token_id_le (hp.identifiers.valid r.reg hr.reg)
  have hval := hexText_length (digits_le mdio).1 (maximum_digits hr.val)
  have hmask := hexText_length (digits_le mdio).1 (maximum_digits hr.mask)
  have hopen : (I2cJson.text "\x7b\"resource\": ").length = 13 := by decide
  have hvalue : (I2cJson.text ", \"match\": \x7b\"value\": \"").length = 22 := by decide
  have hmaskKey : (I2cJson.text "\", \"mask\": \"").length = 12 := by decide
  have hclose : (I2cJson.text "\"\x7d\x7d").length = 3 := by decide
  simp only [ruleOutput, size_cons, size_nil, Output.bytes, List.length_append, hopen, hvalue, hmaskKey, hclose, hval, hmask]
  omega

theorem size_seed (hp : Canonical mdio (modern mdio p) (resourceId p.profile)) {s : Seed} (hs : s ∈ writtenSeeds mdio p.settings)
    {separator : Bytes} (hseparator : separator.length ≤ 2) : size (seedOutput mdio p.profile separator s) ≤ 68 := by
  obtain ⟨hreg,hvalue⟩ := hp.settings.2.2 s hs
  have hid := token_id_le (hp.identifiers.valid s.reg hreg)
  have hval := hexText_length (digits_le mdio).1 (maximum_digits hvalue)
  have hdigits := (digits_le mdio).2
  have hopen : (I2cJson.text "\x7b\"resource\": ").length = 13 := by decide
  have hkey : (I2cJson.text ", \"value\": \"").length = 12 := by decide
  have hclose : (I2cJson.text "\"\x7d").length = 2 := by decide
  simp only [seedOutput, size_cons, size_nil, Output.bytes, List.length_append, hopen, hkey, hclose, hval]
  omega

theorem size_resources (hp : Canonical mdio (modern mdio p) (resourceId p.profile)) {k : ℕ} (hk : k ≤ p.regCount) :
    size ((List.range k).flatMap (resourceOutput p.profile p.regCount)) ≤ (layout (resourceId p.profile) k).length + 56 * k := by
  induction k with
  | zero => exact Nat.zero_le _
  | succ k ih =>
    have hprefix := ih (by omega)
    have hid := token_id_length (hp.identifiers.valid k hk)
    have haddress : (hexText 2 k).length = 4 := hexText_length (by decide) (by
      have hcount : p.regCount ≤ registersMax mdio := hp.count.2
      have hmax : registersMax mdio ≤ 256 := registers_count
      omega)
    have hopen : (I2cJson.text "    \x7b\"id\": ").length = 11 := by decide
    have hkind : (I2cJson.text ", \"kind\": \"register\", \"address\": \"").length = 34 := by decide
    have hclose : (I2cJson.text "\"\x7d").length = 2 := by decide
    have hcomma : (if k + 1 = p.regCount then [] else I2cJson.text ",").length ≤ 1 := by
      split
      · exact Nat.zero_le 1
      · decide
    have hnewline : (I2cJson.text "\n").length = 1 := by decide
    rw [List.range_succ, List.flatMap_append, size_append, layout_succ, List.length_append, List.length_append, List.length_singleton]
    simp only [List.flatMap_cons, List.flatMap_nil, List.append_nil, resourceOutput, size_cons, size_nil, Output.bytes,
      List.length_append, hopen, hkind, hclose, hnewline, hid, haddress]
    omega

theorem size_unlessEmpty {s : Name} {key : Bytes} {bound : ℕ} (h : s.length < bound) (hkey : key.length ≤ 20) :
    size (memberUnlessEmpty s key) ≤ 2 * bound + 22 := by
  unfold memberUnlessEmpty
  split
  · exact Nat.zero_le _
  · have htoken := token_length_le s
    simp only [size_cons, size_nil, Output.bytes]
    omega

theorem size_device (hp : MetadataOk (modernMetadata mdio p)) : size (deviceOutput mdio p) ≤ 720 := by
  have hmodel := token_length_le (modernMetadata mdio p).model
  have hmodelShort := hp.model.2.1
  have hclass : (token (modernMetadata mdio p).deviceClass).length ≤ 9 := by
    have hall : ∀ s ∈ deviceClasses, (token s).length ≤ 9 := by decide
    exact hall _ (by simpa [classValid] using hp.deviceClass)
  have hvendor : size (memberUnlessEmpty (modernMetadata mdio p).vendor (I2cJson.text ", \"vendor\": ")) ≤ 152 :=
    size_unlessEmpty hp.vendor.1 (by decide)
  have hlabel : size (memberUnlessEmpty (modernMetadata mdio p).label (I2cJson.text ", \"label\": ")) ≤ 216 :=
    size_unlessEmpty hp.label.1 (by decide)
  have hopen : (I2cJson.text ",\n  \"device\": \x7b\"model\": ").length = 24 := by decide
  have hword : (I2cJson.text ", \"class\": ").length = 11 := by decide
  have hdevice : size (deviceOutput mdio p) = 24 + ((token (modernMetadata mdio p).model).length + (11 +
      (token (modernMetadata mdio p).deviceClass).length)) + size (memberUnlessEmpty (modernMetadata mdio p).vendor (I2cJson.text ", \"vendor\": ")) +
      size (memberUnlessEmpty (modernMetadata mdio p).label (I2cJson.text ", \"label\": ")) := by
    simp only [deviceOutput, size_append, size_cons, size_nil, Output.bytes, hopen, hword, Nat.add_zero]
    rfl
  omega

theorem size_protocol (hp : Canonical mdio (modern mdio p) (resourceId p.profile)) : size (protocolOutput mdio p) ≤ 1400 := by
  have hoptions := hp.options
  unfold OptionsOk at hoptions
  have hdriver : (I2cJson.text "  \"protocol\": \x7b\"driver\": \"bvstk_" ++ I2cJson.text (busName mdio) ++
      I2cJson.text "_bridge\", \"options\": \x7b").length ≤ 64 := by
    cases mdio with
    | true => decide
    | false => decide
  unfold protocolOutput
  rw [size_cons, Output.bytes]
  split
  · rename_i hmdio
    rw [if_pos hmdio] at hoptions
    obtain ⟨-,-,hregs,hfew,hregDelay,hcycleDelay⟩ := hoptions
    have horder : size (listed (fun separator reg => [Output.text separator,.quoted (resourceId p.profile reg)]) p.autopollRegs) ≤
        35 * p.autopollRegs.length := size_listed fun r hr separator hseparator => by
      have hid := token_id_le (hp.identifiers.valid r (hregs r hr))
      simp only [size_cons, size_nil, Output.bytes]
      omega
    have hregDelayText := decimal_length (n := p.autopollRegDelayMs) (le_trans hregDelay (by decide))
    have hcycleDelayText := decimal_length (n := p.autopollCycleDelayMs) hcycleDelay
    have hfew' : p.autopollRegs.length ≤ 32 := hfew
    have henabled : (boolText p.autopollEnabled).length ≤ 5 := by
      cases p.autopollEnabled with
      | true => decide
      | false => decide
    have hone : (I2cJson.text "\"autopoll_enabled\": ").length = 20 := by decide
    have htwo : (I2cJson.text ", \"autopoll_reg_delay_ms\": ").length = 27 := by decide
    have hthree : (I2cJson.text ", \"autopoll_cycle_delay_ms\": ").length = 29 := by decide
    have hfour : (I2cJson.text ", \"autopoll_order\": [").length = 21 := by decide
    have hclose : (I2cJson.text "]").length = 1 := by decide
    rw [size_cons, size_append, Output.bytes]
    simp only [size_cons, size_nil, Output.bytes, List.length_append, hone, htwo, hthree, hfour, hclose]
    simp only [List.length_append] at hdriver
    omega
  · rename_i hi2c
    rw [if_neg hi2c] at hoptions
    have hcode : p.maxValueCode ≤ 64 := hoptions.1
    have hhex : (hexText 2 p.maxValueCode).length = 4 := hexText_length (by decide) (by omega)
    have hone : (I2cJson.text "\"max_write_value\": \"").length = 20 := by decide
    have htwo : (I2cJson.text "\", \"capture_cache_on_save\": true").length = 32 := by decide
    simp only [size_cons, size_nil, Output.bytes, List.length_append, hone, htwo, hhex]
    simp only [List.length_append] at hdriver
    omega

theorem transportText_length (haddress : p.address < 256) : (transportText mdio p).length ≤ 130 := by
  have hhex : (hexText 2 p.address).length = 4 := hexText_length (by decide) haddress
  have hopen : (I2cJson.text "\x7d,\n  \"transport\": \x7b\"bus\": \"").length ≤ 30 := by decide
  have hcontroller : (I2cJson.text "\", \"controller\": \"pl_").length = 21 := by decide
  have haddressKey : (I2cJson.text "_0\", \"address\": \"").length = 17 := by decide
  have hquote : (I2cJson.text "\"").length = 1 := by decide
  have hclose : (I2cJson.text "\x7d,\n").length = 3 := by decide
  have hbus : (I2cJson.text (busName mdio)).length ≤ 4 := by
    cases mdio with
    | true => decide
    | false => decide
  have hbits : (I2cJson.text (if mdio = true then "" else ", \"address_bits\": 7")).length ≤ 19 := by
    cases mdio with
    | true => decide
    | false => decide
  simp only [transportText, List.length_append, hcontroller, haddressKey, hquote, hclose, hhex]
  omega

theorem defaultsText_length : (defaultsText mdio).length ≤ 240 := by
  have hopen : (I2cJson.text "\x7d\x7d,\n  \"defaults\": \x7b\"register\": \x7b\"width_bits\": ").length ≤ 50 := by decide
  have haccess : (I2cJson.text ", \"access\": \"rw\", \"write_mask\": \"").length ≤ 40 := by decide
  have hclose : (I2cJson.text ("\", \"cache\": \x7b\"mode\": \"driver\"\x7d, \"verify\": \x7b\"mode\": \"driver\"\x7d\x7d\x7d,\n" ++
      "  \"resources\": [\n")).length ≤ 100 := by decide
  have hbits : (decimal (width mdio)).length ≤ 6 := decimal_length (by cases mdio <;> decide)
  have hlargest : (maximum mdio).toNat < 16 ^ (width mdio / 4) := maximum_digits (Nat.le_refl _)
  have hmask := hexText_length (digits_le mdio).1 hlargest
  have hdigits := (digits_le mdio).2
  have hlast : I2cJson.text ("\", \"cache\": \x7b\"mode\": \"driver\"\x7d, \"verify\": \x7b\"mode\": \"driver\"\x7d\x7d\x7d,\n" ++
      "  \"resources\": [\n") = I2cJson.text "\", \"cache\": \x7b\"mode\": \"driver\"\x7d, \"verify\": \x7b\"mode\": \"driver\"\x7d\x7d\x7d,\n  \"resources\": [\n" := rfl
  rw [hlast] at hclose
  simp only [defaultsText, List.length_append, hmask]
  omega

theorem size_policy (hp : Canonical mdio (modern mdio p) (resourceId p.profile)) :
    size (policyOutput mdio p) ≤ 140 + (89 + 2 * (width mdio / 4)) * (p.whitelist.length + p.blacklist.length) := by
  have hrules : ∀ rules : List PolicyRule, (∀ r ∈ rules, RuleOk mdio p.regCount p.maxValueCode r) →
      size (listed (ruleOutput mdio p.profile) rules) ≤ (89 + 2 * (width mdio / 4)) * rules.length := fun rules hall =>
    size_listed fun r hr separator hseparator => size_rule hp (hall r hr) hseparator
  have hwhite := hrules _ hp.whitelist.2
  have hblack := hrules _ hp.blacklist.2
  have hboth : size (listed (ruleOutput mdio p.profile) (DeviceProfile.active p)) +
      size (listed (ruleOutput mdio p.profile) (DeviceProfile.inactive p)) ≤
      (89 + 2 * (width mdio / 4)) * (p.whitelist.length + p.blacklist.length) := by
    rw [Nat.mul_add]
    unfold DeviceProfile.active DeviceProfile.inactive
    cases p.policy with
    | whitelist => exact Nat.add_le_add hwhite hblack
    | blacklist =>
      rw [Nat.add_comm]
      exact Nat.add_le_add hwhite hblack
  have hopen : (I2cJson.text ("  ],\n  \"policy\": \x7b\"read\": \x7b\"mode\": \"blacklist\", \"rules\": []\x7d, " ++
      "\"write\": \x7b\"mode\": \"")).length ≤ 90 := by decide
  have htext : I2cJson.text ("  ],\n  \"policy\": \x7b\"read\": \x7b\"mode\": \"blacklist\", \"rules\": []\x7d, " ++
      "\"write\": \x7b\"mode\": \"") =
      I2cJson.text "  ],\n  \"policy\": \x7b\"read\": \x7b\"mode\": \"blacklist\", \"rules\": []\x7d, \"write\": \x7b\"mode\": \"" := rfl
  rw [htext] at hopen
  have hmode : (modeWord p.policy).length = 9 := by
    cases p.policy with
    | whitelist => decide
    | blacklist => decide
  have hquote : (I2cJson.text "\"").length = 1 := by decide
  have hkey : (I2cJson.text ", \"rules\": [").length = 12 := by decide
  have hinactive : (I2cJson.text ", \"inactive_rules\": [").length = 21 := by decide
  have hclose : (I2cJson.text "]").length = 1 := by decide
  simp only [policyOutput, size_cons, size_append, size_nil, Output.bytes, List.length_append, hmode, hquote, hkey, hinactive, hclose,
    List.cons_append]
  omega

/-- The text of a profile is not longer than its lists allow. -/
theorem formatText_length_le (hp : Canonical mdio (modern mdio p) (resourceId p.profile)) : (formatText mdio p).length ≤
    5300 + 56 * p.regCount + (89 + 2 * (width mdio / 4)) * (p.whitelist.length + p.blacklist.length) +
      68 * (writtenSeeds mdio p.settings).length := by
  have hname : (token p.name).length ≤ 33 := token_id_le hp.name
  have hmap := hp.metadata.registerMap
  rw [registerMapValid, Bool.and_eq_true] at hmap
  have hmapSize : size (memberUnlessEmpty p.profile.registerMap (I2cJson.text ",\n  \"register_map\": ")) ≤ 150 :=
    size_unlessEmpty (assetName_printable hmap.1 (by decide)).2 (by decide)
  have hviewSize : size (memberUnlessEmpty p.profile.view (I2cJson.text ",\n  \"view\": ")) ≤ 150 :=
    size_unlessEmpty (assetName_printable hp.metadata.view (by decide)).2 (by decide)
  have hdevice : size (deviceOutput mdio p) ≤ 720 := size_device hp.metadata
  have haddress : p.address < 256 := lt_of_le_of_lt hp.address (by cases mdio <;> decide)
  have htransport : (transportText mdio p).length ≤ 130 := transportText_length haddress
  have hprotocol := size_protocol hp
  have hdefaults : (defaultsText mdio).length ≤ 240 := defaultsText_length
  have hrows := size_resources hp (Nat.le_refl p.regCount)
  have hids : (layout (resourceId p.profile) p.regCount).length ≤ 2048 := hp.identifiers.size
  have hpolicy := size_policy hp
  have hseeds : size (listed (seedOutput mdio p.profile) (writtenSeeds mdio p.settings)) ≤ 68 * (writtenSeeds mdio p.settings).length :=
    size_listed fun s hs separator hseparator => size_seed hp hs hseparator
  have hopen : (I2cJson.text "\x7b\n  \"schema_version\": 2,\n  \"id\": ").length ≤ 40 := by decide
  have hsettings : (I2cJson.text "\x7d\x7d,\n  \"settings\": \x7b\"desired\": [], \"cache_seed\": [").length = 49 := by decide
  have hlast : (I2cJson.text ("], \"apply_on_startup\": false\x7d,\n  \"observability\": \x7b\"telemetry\": true, " ++
      "\"events\": true\x7d\n\x7d\n")).length ≤ 100 := by decide
  change size (outputs mdio p) ≤ _
  simp only [outputs, size_append, size_cons, size_nil, Output.bytes, hsettings]
  omega

end

/-- A profile with room for its rules is written into the buffer that files are saved from. -/
theorem format_fits {mdio : Bool} {p : DeviceProfile} (hp : Canonical mdio (modern mdio p) (resourceId p.profile))
    (hrules : mdio = true ∨ p.whitelist.length + p.blacklist.length ≤ 300) :
    format mdio p (profileJsonMax + 1) = .ok (formatText mdio p) := by
  have hlength := formatText_length_le hp
  have hshort : (formatText mdio p).length ≤ 65536 := by
    have hcount : p.regCount ≤ registersMax mdio := hp.count.2
    have hwhite : p.whitelist.length ≤ rulesMax mdio := hp.whitelist.1
    have hblack : p.blacklist.length ≤ rulesMax mdio := hp.blacklist.1
    have hseeds : (writtenSeeds mdio p.settings).length ≤ settingsMax mdio := hp.settings.1
    cases mdio with
    | true =>
      change _ ≤ 32 at hcount
      change _ ≤ 64 at hwhite hblack
      change _ ≤ 32 at hseeds
      change _ ≤ 5300 + 56 * p.regCount + 97 * _ + _ at hlength
      omega
    | false =>
      have hfew := hrules.resolve_left (by decide)
      change _ ≤ 256 at hcount hseeds
      change _ ≤ 5300 + 56 * p.regCount + 93 * _ + _ at hlength
      omega
  rw [format_canonical hp, if_neg (Nat.succ_ne_zero _), if_pos ⟨Nat.lt_succ_of_le hshort,hshort⟩]

end Profile

end Bvstk.Config
