import Bvstk.Fat.DeviceFile

/-! # Names of devices and their profiles

A valid device name is a word, so the names of its profile, of the temporary file and of
the backup are told apart by how they end.
-/
namespace Bvstk.Fat
open Bvstk.Fs Bvstk.Config

/-! ## Characters -/

theorem isWord_iff {c : UInt8} : isWord c = true ↔ (97 ≤ c.toNat ∧ c.toNat ≤ 122) ∨ (65 ≤ c.toNat ∧ c.toNat ≤ 90) ∨
    (48 ≤ c.toNat ∧ c.toNat ≤ 57) ∨ c.toNat = 95 ∨ c.toNat = 45 := by
  simp only [isWord, isLower, isUpper, digit, Bool.or_eq_true, decide_eq_true_eq, beq_iff_eq, UInt8.le_iff_toNat_le,
    ← UInt8.toNat_inj, or_assoc]
  rfl

theorem toLower_toNat (c : UInt8) :
    (toLower c).toNat = if 65 ≤ c.toNat ∧ c.toNat ≤ 90 then c.toNat + 32 else c.toNat := by
  simp only [toLower, isUpper, decide_eq_true_eq, UInt8.le_iff_toNat_le]
  change (if 65 ≤ c.toNat ∧ c.toNat ≤ 90 then c + 32 else c).toNat = _
  split_ifs with h
  · rw [UInt8.toNat_add]
    change (c.toNat + 32) % 256 = _
    omega
  · rfl

theorem isWord_toLower (c : UInt8) : isWord (toLower c) = isWord c := by
  rw [Bool.eq_iff_iff, isWord_iff, isWord_iff, toLower_toNat]
  split_ifs <;> omega

theorem separator_of_isWord {c : UInt8} (h : isWord c = true) : isSeparator c = false ∧ c ≠ 46 := by
  rw [isWord_iff] at h
  constructor
  · rw [Bool.eq_false_iff]
    intro hc
    simp only [isSeparator, Bool.or_eq_true, beq_iff_eq] at hc
    rcases hc with rfl | rfl <;> simp [slash, backslash] at h
  · rintro rfl
    simp at h
/-! ## Words -/

/-- Letters, digits, underscores and hyphens, at least one. -/
def WordName (name : Name) : Prop := name ≠ [] ∧ ∀ c ∈ name, isWord c = true

theorem WordName.no_dot {name : Name} (h : WordName name) : 46 ∉ name :=
  fun hdot => (separator_of_isWord (h.2 _ hdot)).2 rfl

theorem WordName.no_slash {name : Name} (h : WordName name) : 47 ∉ name := by
  intro hslash
  have hsep := (separator_of_isWord (h.2 _ hslash)).1
  simp [isSeparator, slash] at hsep

theorem WordName.of_lower {a b : Name} (h : WordName b) (heq : a.map toLower = b.map toLower) : WordName a := by
  constructor
  · rintro rfl
    exact h.1 (List.map_eq_nil_iff.mp heq.symm)
  · intro c hc
    have hmem : toLower c ∈ b.map toLower := heq ▸ List.mem_map_of_mem hc
    obtain ⟨c',hc',hlower⟩ := List.mem_map.mp hmem
    rw [← isWord_toLower, ← hlower, isWord_toLower]
    exact h.2 c' hc'

/-- A word followed by an ending such as `.json` is a name. -/
theorem WordName.isName {name ending : Name} (h : WordName name) (hending : ∀ c ∈ ending, isSeparator c = false) :
    IsName (name ++ ending) := by
  refine ⟨by simp [h.1],?_⟩
  intro c hc
  rcases List.mem_append.mp hc with hc | hc
  · exact (separator_of_isWord (h.2 c hc)).1
  · exact hending c hc

theorem jsonExtension_no_separator : ∀ c ∈ jsonExtension, isSeparator c = false := by
  simp [jsonExtension, isSeparator, slash, backslash]

theorem bakEnding_no_separator : ∀ c ∈ bakEnding, isSeparator c = false := by
  simp [bakEnding, isSeparator, slash, backslash]

theorem json_append_no_separator {ending : Name} (h : ∀ c ∈ ending, isSeparator c = false) :
    ∀ c ∈ jsonExtension ++ ending, isSeparator c = false := by
  intro c hc
  rcases List.mem_append.mp hc with hc | hc
  · exact jsonExtension_no_separator c hc
  · exact h c hc

theorem jsonBakEnding_no_separator : ∀ c ∈ jsonBakEnding, isSeparator c = false :=
  json_append_no_separator bakEnding_no_separator

theorem WordName.name {name : Name} (h : WordName name) : IsName name :=
  ⟨h.1,fun c hc => (separator_of_isWord (h.2 c hc)).1⟩

/-- `..` is not found where there is one dot. -/
theorem hasDotDot_one {a b : Name} (ha : 46 ∉ a) (hb : 46 ∉ b) : hasDotDot (a ++ 46 :: b) = false := by
  have hnone : ∀ b : Name, 46 ∉ b → hasDotDot b = false := by
    intro b
    induction b with
    | nil => simp [hasDotDot]
    | cons c b ih =>
      intro hc
      rw [List.mem_cons, not_or] at hc
      cases b with
      | nil => rfl
      | cons d b => simp [hasDotDot, ih hc.2, Ne.symm hc.1]
  induction a with
  | nil =>
    cases b with
    | nil => rfl
    | cons d b =>
      rw [List.mem_cons, not_or] at hb
      simp [hasDotDot, hnone (d :: b) (by simp [hb]), Ne.symm hb.1]
  | cons c a ih =>
    rw [List.mem_cons, not_or] at ha
    cases a with
    | nil => simpa [hasDotDot, Ne.symm ha.1] using ih ha.2
    | cons d a => simpa [hasDotDot, Ne.symm ha.1] using ih ha.2

/-- The device in the path of a canonical profile. -/
theorem canonical_parts {bundle : Name} (leaf : Name) (h : 47 ∉ bundle) :
    (bundle ++ slash :: leaf).takeWhile (· != 47) = bundle ∧ ((bundle ++ slash :: leaf).drop bundle.length).drop 1 = leaf := by
  constructor
  · rw [List.takeWhile_append_of_pos, List.takeWhile_cons_of_neg (by simp [slash]), List.append_nil]
    intro c hc
    simpa using fun heq : c = 47 => h (heq ▸ hc)
  · rw [List.drop_left]
    rfl

theorem devicePathValid_bundle {bundle leaf : Name} (h : 47 ∉ bundle) :
    devicePathValid (bundle ++ slash :: leaf) = true ↔
      ((bundle ++ slash :: leaf).length < fileNameMax ∧ 6 ≤ (bundle ++ slash :: leaf).length) ∧
      hasDotDot (bundle ++ slash :: leaf) = false ∧
      (∀ c ∈ bundle ++ slash :: leaf, isWord c = true ∨ c = 46 ∨ c = 47) ∧
      (0 < bundle.length ∧ bundle.length < i2cNameMax) ∧ 47 ∉ leaf ∧ 46 ∉ bundle ∧
      (sameIgnoringCase leaf profileLeaf = true ∨ (leaf.length = bundle.length + 5 ∧
        sameIgnoringCase bundle (leaf.take bundle.length) = true ∧ endsInJson leaf = true)) := by
  obtain ⟨hdevice,hleaf⟩ := canonical_parts leaf h
  rw [devicePathValid, hdevice]
  dsimp only
  rw [hleaf, if_neg (by simp)]
  simp only [Bool.and_eq_true, Bool.or_eq_true, decide_eq_true_eq, Bool.not_eq_true', List.all_eq_true,
    beq_iff_eq, Bool.eq_false_iff, ne_eq, List.contains_iff_mem, and_assoc, or_assoc]
  rfl

theorem devicePathValid_word {device : Name} (h : devicePathValid (canonicalProfileName device) = true) :
    WordName device ∧ device.length < i2cNameMax ∧ (canonicalProfileName device).length < fileNameMax := by
  have hno : 47 ∉ device := by
    intro hmem
    obtain ⟨bundle,rest,rfl,hbundle⟩ := List.eq_append_cons_of_mem hmem
    have hpath : canonicalProfileName (bundle ++ 47 :: rest) =
        bundle ++ slash :: (rest ++ slash :: (bundle ++ 47 :: rest ++ jsonExtension)) := by
      simp [canonicalProfileName, slash]
    rw [hpath, devicePathValid_bundle hbundle] at h
    exact h.2.2.2.2.1 (by simp [slash])
  obtain ⟨⟨hlen,-⟩,-,hall,⟨hpos,hshort⟩,-,hdot,-⟩ := (devicePathValid_bundle hno).mp h
  refine ⟨⟨List.ne_nil_of_length_pos hpos,?_⟩,hshort,hlen⟩
  intro c hc
  rcases hall c (List.mem_append_left _ hc) with hword | rfl | rfl
  · exact hword
  · exact absurd hc hdot
  · exact absurd hc hno

/-- The name of the directory may differ in the case of its letters. -/
theorem devicePathValid_of_lower {bundle device : Name} (h : devicePathValid (canonicalProfileName device) = true)
    (heq : bundle.map toLower = device.map toLower) :
    devicePathValid (bundle ++ slash :: (device ++ jsonExtension)) = true := by
  obtain ⟨hword,-,-⟩ := devicePathValid_word h
  have hbundle := hword.of_lower heq
  have hlength : bundle.length = device.length := by simpa using congrArg List.length heq
  obtain ⟨hlen,-,hall,hpos,hleaf,-,hends⟩ := (devicePathValid_bundle hword.no_slash).mp h
  rw [devicePathValid_bundle hbundle.no_slash]
  refine ⟨?_,?_,?_,?_,hleaf,hbundle.no_dot,?_⟩
  · simpa [hlength] using hlen
  · have hdots : hasDotDot ((bundle ++ slash :: device) ++ 46 :: [106,115,111,110]) = false := by
      refine hasDotDot_one ?_ (by decide)
      simp [hbundle.no_dot, hword.no_dot, slash]
    simpa [jsonExtension] using hdots
  · intro c hc
    rcases List.mem_append.mp hc with hc | hc
    · exact Or.inl (hbundle.2 c hc)
    · exact hall c (List.mem_append_right _ hc)
  · rwa [hlength]
  · rw [hlength]
    rcases hends with hprofile | ⟨hl,-,hjson⟩
    · exact Or.inl hprofile
    · refine Or.inr ⟨hl,?_,hjson⟩
      rw [sameIgnoringCase, List.take_left, beq_iff_eq, heq]

theorem afterLastSlash_child (path : Path) {name : Name} (h : 47 ∉ name) : afterLastSlash (path ++ slash :: name) = name := by
  have hname : ∀ c ∈ name.reverse, (c != slash) = true := by
    intro c hc
    simpa [slash] using fun heq : c = 47 => h (heq ▸ List.mem_reverse.mp hc)
  rw [afterLastSlash, List.reverse_append, List.reverse_cons, List.append_assoc, List.takeWhile_append_of_pos hname,
    List.singleton_append, List.takeWhile_cons_of_neg (by simp), List.append_nil, List.reverse_reverse]

/-! ## Endings -/

/-- A name that ends in `.json.bak` is a file name with `.json` and four more characters. -/
theorem endsInJsonBak_split {name : Name} (hlen : 10 ≤ name.length) (h : endsInJsonBak name = true) :
    ∃ start, name.map toLower = start ++ jsonExtension ++ bakEnding ∧ start ≠ [] ∧
      (name.take (name.length - 4)).map toLower = start ++ jsonExtension := by
  rw [endsInJsonBak, beq_iff_eq] at h
  have h9 : jsonBakEnding.length = 9 := rfl
  have hname : name.map toLower = (name.take (name.length - 9)).map toLower ++ jsonBakEnding := by
    rw [← h, h9, ← List.map_append, List.take_append_drop]
  refine ⟨(name.take (name.length - 9)).map toLower,?_,?_,?_⟩
  · rw [hname, jsonBakEnding, List.append_assoc]
  · rw [Ne, List.map_eq_nil_iff, List.take_eq_nil_iff, not_or]
    exact ⟨by omega,List.ne_nil_of_length_pos (by omega)⟩
  · rw [List.map_take, hname, jsonBakEnding, ← List.append_assoc]
    refine List.take_left' ?_
    simp [jsonExtension]
    omega

end Bvstk.Fat
