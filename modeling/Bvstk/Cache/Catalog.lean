import Bvstk.Cache.RegistryInvariant
import Bvstk.Config.ProfileMetadata

/-! # Exported catalogs

How `bvstk_cache_bridges.c` exports a device: a catalog with one entry for each register.
What the registry then shows of it, and what each registry operation does to that.
-/
namespace Bvstk.Cache
open Config

/-! ## Identifiers -/

def hexDigit (n : ℕ) : UInt8 := UInt8.ofNat (if n < 10 then 48 + n else 87 + n)

/-- `reg_%02x`, for a register below 256. -/
def genericName (r : ℕ) : Name := [114,101,103,95,hexDigit (r / 16),hexDigit (r % 16)]

/-- `resource_name`: the identifier in the profile, cut to the size of an entry. -/
def resourceName (p : ProfileMetadata) (r : ℕ) : Name :=
  if p.version = 2 ∧ p.idOffset r < profileIdsCap then
    ((p.ids.drop (p.idOffset r)).takeWhile (· != 0)).take (cacheNameMax - 1)
  else genericName r

def origin (seeded : Bool) : ℕ := if seeded = true then sourceSettings else sourceDevice

theorem hexDigit_injective {a b : ℕ} (ha : a < 16) (hb : b < 16) (h : hexDigit a = hexDigit b) : a = b := by
  have hall : ∀ a < 16, ∀ b < 16, hexDigit a = hexDigit b → a = b := by decide
  exact hall a ha b hb h

theorem nameChar_hexDigit {n : ℕ} (h : n < 16) : nameChar (hexDigit n) = true := by
  have hall : ∀ n < 16, nameChar (hexDigit n) = true := by decide
  exact hall n h

theorem genericName_valid {r : ℕ} (h : r < 256) : nameValid (genericName r) = true := by
  have hhigh := nameChar_hexDigit (n := r / 16) (by omega)
  have hlow := nameChar_hexDigit (n := r % 16) (by omega)
  have hprefix : nameChar 114 = true ∧ nameChar 101 = true ∧ nameChar 103 = true ∧ nameChar 95 = true := by decide
  simp [nameValid, genericName, cacheNameMax, hhigh, hlow, hprefix]

theorem genericName_injective {a b : ℕ} (ha : a < 256) (hb : b < 256) (h : genericName a = genericName b) :
    a = b := by
  simp only [genericName, List.cons.injEq, and_true, true_and] at h
  have hhigh := hexDigit_injective (by omega) (by omega) h.1
  have hlow := hexDigit_injective (by omega) (by omega) h.2
  omega

theorem nameValid_of_idValid {s : Name} (h : idValid s = true) : nameValid s = true := by
  cases s with
  | nil => exact absurd h (by simp [idValid])
  | cons c s =>
    simp only [idValid, Bool.and_eq_true, decide_eq_true_eq] at h
    obtain ⟨⟨-,hlength⟩,hall⟩ := h
    simp only [nameValid, Bool.and_eq_true, decide_eq_true_eq]
    refine ⟨⟨List.cons_ne_nil _ _,hlength⟩,?_⟩
    rw [List.all_eq_true] at hall ⊢
    intro x hx
    have hchar := hall x hx
    simp only [isLower, digit, Bool.or_eq_true, decide_eq_true_eq, beq_iff_eq] at hchar
    simp only [nameChar, decide_eq_true_eq]
    tauto

/-- The identifier of a checked profile is exported as it is. -/
theorem resourceName_of_id {p : ProfileMetadata} {r : ℕ} {id : Name} (hversion : p.version = 2)
    (hcap : p.ids.length ≤ profileIdsCap) (hid : p.id r = some id) (hvalid : idValid id = true) :
    resourceName p r = id := by
  unfold ProfileMetadata.id at hid
  dsimp only at hid
  split at hid
  · cases hid
  rename_i hin
  rw [not_or] at hin
  have hterminated : (p.ids.drop (p.idOffset r)).contains 0 = true := by simpa using hin.2
  have hoffset : p.idOffset r < p.ids.length := by
    by_contra hout
    rw [List.drop_eq_nil_of_le (Nat.not_lt.mp hout)] at hterminated
    cases hterminated
  unfold resourceName
  rw [if_pos ⟨hversion,Nat.lt_of_lt_of_le hoffset hcap⟩, Option.some.inj hid]
  have hlength := (nameValid_length (nameValid_of_idValid hvalid)).2
  exact List.take_of_length_le (by omega)

theorem idsValid_spec {p : ProfileMetadata} {count : ℕ} (h : idsValid p count = true) :
    ∀ r < count, ∃ id, p.id r = some id ∧ idValid id = true ∧ ∀ j < r, p.id j ≠ some id := by
  induction count with
  | zero => exact fun r hr => absurd hr (Nat.not_lt_zero r)
  | succ count ih =>
    simp only [idsValid, Bool.and_eq_true] at h
    intro r hr
    rcases Nat.lt_succ_iff_lt_or_eq.mp hr with hr | rfl
    · exact ih h.1 r hr
    · have hlast := h.2
      cases hid : p.id r with
      | none => simp [hid] at hlast
      | some id =>
        simp only [hid, Bool.and_eq_true, List.all_eq_true, List.mem_range, bne_iff_ne] at hlast
        exact ⟨id,rfl,hlast.1,hlast.2⟩

theorem metadataValidate_version {p : ProfileMetadata} {count : ℕ} (h : metadataValidate p count = .ok) :
    count ≤ i2cMaxRegCount ∧ (p.version = 0 ∨
      p.version = 2 ∧ p.ids.length ≤ profileIdsCap ∧ idsValid p count = true) := by
  unfold metadataValidate at h
  split at h
  · cases h
  rename_i hassets
  refine ⟨by omega,?_⟩
  split at h
  · exact Or.inl ‹_›
  split at h
  · cases h
  rename_i hfields
  split at h
  · cases h
  rename_i hids
  simp only [not_or, not_not, Nat.not_lt] at hfields
  exact Or.inr ⟨hfields.1,hfields.2.2.1,by simpa using hids⟩

/-- The registers of a checked profile are exported under valid names, no two of them
equal. -/
theorem resourceName_spec {p : ProfileMetadata} {count : ℕ} (h : metadataValidate p count = .ok) :
    (∀ r < count, nameValid (resourceName p r) = true) ∧
      ∀ i < count, ∀ j < count, resourceName p i = resourceName p j → i = j := by
  obtain ⟨hcount,hzero | ⟨hversion,hcap,hids⟩⟩ := metadataValidate_version h
  · have hgeneric : ∀ r, resourceName p r = genericName r := by
      intro r
      rw [resourceName, hzero, if_neg (fun hboth => absurd hboth.1 (by decide))]
    have hsmall : ∀ r < count, r < 256 := fun r hr => Nat.lt_of_lt_of_le hr hcount
    constructor
    · intro r hr
      rw [hgeneric]
      exact genericName_valid (hsmall r hr)
    · intro i hi j hj hij
      rw [hgeneric, hgeneric] at hij
      exact genericName_injective (hsmall i hi) (hsmall j hj) hij
  · have hspec := idsValid_spec hids
    constructor
    · intro r hr
      obtain ⟨id,hid,hvalid,-⟩ := hspec r hr
      rw [resourceName_of_id hversion hcap hid hvalid]
      exact nameValid_of_idValid hvalid
    · -- the later of two registers was compared with the earlier one
      have hlater : ∀ i < count, ∀ j < i, resourceName p i ≠ resourceName p j := by
        intro i hi j hj hij
        obtain ⟨id,hid,hvalid,hfresh⟩ := hspec i hi
        obtain ⟨id',hid',hvalid',-⟩ := hspec j (Nat.lt_trans hj hi)
        rw [resourceName_of_id hversion hcap hid hvalid, resourceName_of_id hversion hcap hid' hvalid'] at hij
        exact hfresh j hj (hij ▸ hid')
      intro i hi j hj hij
      rcases Nat.lt_trichotomy i j with hlt | heq | hgt
      · exact absurd hij.symm (hlater j hj i hlt)
      · exact heq
      · exact absurd hij (hlater i hi j hgt)

/-! ## Catalogs -/

/-- What a service cache holds of one register. -/
structure Sample where
  value : UInt64
  valid : Bool
  seeded : Bool
  updatedMs : UInt64
  deriving DecidableEq, Repr

/-- How a device is exported. -/
structure Catalog where
  subsystem : Name
  name : Name
  count : ℕ
  id : ℕ → Name
  width : UInt8

def Catalog.entry (k : Catalog) (r : ℕ) (m : Sample) : CacheEntry :=
  ⟨k.id r,m.value,m.updatedMs,k.width,flag m.valid,UInt8.ofNat (origin m.seeded)⟩

/-- `describe_i2c` and `describe_mdio`. -/
def Catalog.describe (k : Catalog) (sample : ℕ → Sample) (r : ℕ) : CacheEntry := k.entry r (sample r)

/-- A registry entry that says what the service cache says. -/
structure CacheEntry.Agrees (e : CacheEntry) (m : Sample) : Prop where
  valid : e.valid = flag m.valid
  current : m.valid = true → e.value = m.value ∧ e.source.toNat = origin m.seeded ∧ e.updatedMs = m.updatedMs
  cleared : m.valid = false → e.value = 0 ∧ e.source.toNat = sourceUnknown ∧ e.updatedMs = 0

/-- A catalog that the registry accepts. -/
structure Catalog.Exportable (k : Catalog) : Prop where
  subsystem : nameValid k.subsystem = true
  name : nameValid k.name = true
  count : k.count ≤ cacheResourcesMax
  ids : ∀ r < k.count, nameValid (k.id r) = true
  distinct : ∀ i < k.count, ∀ j < k.count, k.id i = k.id j → i = j
  width : k.width ≠ 0 ∧ k.width.toNat ≤ 64

/-- The registry device `d` shows the samples of the catalog, but for the stale ones. -/
structure Catalog.Shown (k : Catalog) (sample : ℕ → Sample) (stale : ℕ → Prop) (d : CacheSnapshot) : Prop where
  subsystem : d.subsystem = k.subsystem
  device : d.device = k.name
  count : d.entries.length = k.count
  shape : ∀ i e, d.entries[i]? = some e → e.id = k.id i ∧ e.widthBits = k.width
  current : ∀ i < k.count, ¬stale i → d.entries[i]? = some (normalize (k.describe sample i))

theorem origin_le (seeded : Bool) : origin seeded ≤ sourceDevice := by
  cases seeded with
  | false => decide
  | true => decide

theorem toNat_origin (seeded : Bool) : (UInt8.ofNat (origin seeded)).toNat = origin seeded := by
  cases seeded with
  | false => rfl
  | true => rfl

theorem agrees_entry (k : Catalog) (r : ℕ) (m : Sample) : (normalize (k.entry r m)).Agrees m := by
  obtain ⟨value,valid,seeded,updatedMs⟩ := m
  cases valid with
  | false => exact ⟨rfl,fun h => (nomatch h),fun _ => ⟨rfl,rfl,rfl⟩⟩
  | true => exact ⟨rfl,fun _ => ⟨rfl,toNat_origin seeded,rfl⟩,fun h => (nomatch h)⟩

theorem Catalog.Exportable.accepts {k : Catalog} (hk : k.Exportable) {sample : ℕ → Sample} {r : ℕ} (hr : r < k.count)
    (hfits : tooWide (sample r).value k.width = false) : entryAccepted (k.describe sample r) = true := by
  simp only [entryAccepted, Catalog.describe, Catalog.entry, hk.ids r hr, hfits, Bool.and_false, Bool.not_false, Bool.and_true,
    Bool.true_and, decide_eq_true_eq, toNat_origin]
  exact ⟨hk.width.1,hk.width.2,origin_le _⟩

/-- The staging loop over accepted entries with different identifiers. -/
theorem stage_eq {describe : ℕ → CacheEntry} {left i : ℕ} {staged : List CacheEntry}
    (haccept : ∀ r, i ≤ r → r < i + left → entryAccepted (describe r) = true)
    (hold : ∀ r, i ≤ r → r < i + left → ∀ e ∈ staged, e.id ≠ (describe r).id)
    (hnew : ∀ r s, i ≤ r → r < s → s < i + left → (describe r).id ≠ (describe s).id) :
    stage describe left i staged = some (staged ++ (List.range' i left).map fun r => normalize (describe r)) := by
  induction left generalizing i staged with
  | zero => simp [stage]
  | succ left ih =>
    have hfirst : staged.any (fun b => b.id == (describe i).id) = false := by
      rw [List.any_eq_false]
      intro e he
      simpa using hold i (Nat.le_refl i) (by omega) e he
    rw [stage, haccept i (Nat.le_refl i) (by omega), hfirst, if_neg (by decide), if_neg (by decide), ih]
    · rw [List.range'_succ, List.map_cons, List.append_assoc, List.singleton_append]
    · exact fun r hr hlt => haccept r (by omega) (by omega)
    · intro r hr hlt e he
      rcases List.mem_append.mp he with he | he
      · exact hold r (by omega) (by omega) e he
      · rw [List.mem_singleton.mp he, normalize_id]
        exact hnew i r (Nat.le_refl i) (by omega) (by omega)
    · exact fun r s hr hrs hlt => hnew r s (by omega) hrs (by omega)

/-! ## What an operation does to a shown device -/

/-- Every device but the one behind `h` is untouched. -/
def OthersKept (r r' : CacheRegistry) (h : ℕ) : Prop := ∀ h', h' ≠ h → device r' h' = device r h'

theorem othersKept_refl (r : CacheRegistry) (h : ℕ) : OthersKept r r h := fun _ _ => rfl

theorem device_congr {r r' : CacheRegistry} {h : ℕ} (heq : r'.devices (h - 1) = r.devices (h - 1)) :
    device r' h = device r h := by
  unfold device
  rw [heq]

theorem device_append {r : CacheRegistry} {h : ℕ} {d : CacheSnapshot} (hd : device r h = some d)
    (d' : CacheSnapshot) (hgeneration : d'.generation = d.generation) (kind : UInt8) (entry : Option CacheEntry)
    (time : UInt64) :
    device (append r h d' kind entry time) h = some { d' with revision := (d'.revision + 1) % 2^64 } ∧
      OthersKept r (append r h d' kind entry time) h := by
  obtain ⟨hzero,hle,hget,hlive⟩ := device_eq_some hd
  constructor
  · unfold device append
    simp only [Function.update_self]
    rw [if_pos ⟨hzero,hle,hgeneration ▸ hlive⟩]
  · intro h' hne
    by_cases hzero' : h' = 0
    · subst hzero'
      simp [device]
    · refine device_congr ?_
      simp only [append]
      rw [Function.update_of_ne (by omega)]

/-- Reporting a register as it is makes its entry current. -/
theorem shown_put {r : CacheRegistry} (hr : r.WellFormed) {k : Catalog} {sample : ℕ → Sample} {stale : ℕ → Prop}
    {h i : ℕ} {d : CacheSnapshot} (hd : device r h = some d) (hshown : k.Shown sample stale d) (hi : i < k.count)
    {m : Sample} (hm : normalize (k.entry i m) = normalize (k.describe sample i))
    (hfits : tooWide m.value k.width = false) (now : UInt64) :
    let r' := (cachePut r h i m.value m.valid (origin m.seeded) m.updatedMs now).2
    ∃ d', device r' h = some d' ∧ k.Shown sample (fun j => stale j ∧ j ≠ i) d' ∧ d'.presence = d.presence ∧
      OthersKept r r' h := by
  intro r'
  obtain ⟨e,he⟩ : ∃ e, d.entries[i]? = some e :=
    ⟨_,List.getElem?_eq_getElem (Nat.lt_of_lt_of_eq hi hshown.count.symm)⟩
  obtain ⟨hid,hwidth⟩ := hshown.shape i e he
  have hrange : ¬(sourceDevice < origin m.seeded ∨ (m.valid = true ∧ tooWide m.value e.widthBits = true)) := by
    rw [hwidth, hfits]
    have horigin := origin_le m.seeded
    rintro (hlt | ⟨-,hwide⟩)
    · omega
    · cases hwide
  by_cases hrepeat : m.valid = false ∧ e.valid = 0
  · -- the entry was invalid and stays so
    have hsame : r' = r := by
      simp only [r', cachePut, hd, he, if_neg hrange, if_pos hrepeat]
    refine ⟨d,hsame ▸ hd,?_,rfl,hsame ▸ othersKept_refl r h⟩
    refine ⟨hshown.subsystem,hshown.device,hshown.count,hshown.shape,?_⟩
    intro j hj hcurrent
    by_cases hji : j = i
    · subst hji
      rw [he, Option.some.injEq, ← hm]
      have hev := (hr.device_valid hd).entries e (List.mem_of_getElem? he)
      obtain ⟨hvalue,hsource,htime⟩ := hev.cleared hrepeat.2
      obtain ⟨id,value,updatedMs,widthBits,valid,source⟩ := e
      dsimp only at *
      have hsource' : source = UInt8.ofNat sourceUnknown := UInt8.toNat_inj.mp hsource
      rw [normalize, Catalog.entry, hrepeat.1, hvalue, htime, hsource', hid, hwidth, hrepeat.2]
      rfl
    · exact hshown.current j hj fun hstale => hcurrent ⟨hstale,hji⟩
  · have hnew : normalize { e with
        value := m.value
        valid := flag m.valid
        source := UInt8.ofNat (origin m.seeded)
        updatedMs := m.updatedMs } = normalize (k.describe sample i) := by
      rw [← hm, Catalog.entry, hid, hwidth]
    let d' : CacheSnapshot := { d with entries := d.entries.set i (normalize (k.describe sample i)) }
    have hput : r' = append r h d' kindChange (some (normalize (k.describe sample i))) now := by
      simp only [r', d', cachePut, hd, he, if_neg hrange, if_neg hrepeat, hnew]
    obtain ⟨hdevice,hothers⟩ := device_append hd d' rfl kindChange (some (normalize (k.describe sample i))) now
    rw [hput]
    refine ⟨_,hdevice,?_,rfl,hothers⟩
    refine ⟨hshown.subsystem,hshown.device,?_,?_,?_⟩
    · exact List.length_set.trans hshown.count
    · intro j e' he'
      simp only [d', List.getElem?_set] at he'
      split_ifs at he' with hij hlt
      · subst hij
        cases he'
        exact ⟨normalize_id _,normalize_widthBits _⟩
      · exact hshown.shape j e' he'
    · intro j hj hcurrent
      simp only [d', List.getElem?_set]
      split_ifs with hij hlt
      · rw [hij]
      · exact absurd (Nat.lt_of_lt_of_eq hi hshown.count.symm) hlt
      · exact hshown.current j hj fun hstale => hcurrent ⟨hstale,fun h => hij h.symm⟩

/-- Whatever is reported of a register, the device stays, and so do the others. -/
theorem put_live {r : CacheRegistry} {h : ℕ} {d : CacheSnapshot} (hd : device r h = some d) (i : ℕ) (value : UInt64)
    (valid : Bool) (source : ℕ) (updatedMs now : UInt64) :
    (∃ d', device (cachePut r h i value valid source updatedMs now).2 h = some d') ∧
      OthersKept r (cachePut r h i value valid source updatedMs now).2 h := by
  unfold cachePut
  rw [hd]
  dsimp only
  cases d.entries[i]? with
  | none => exact ⟨⟨d,hd⟩,othersKept_refl r h⟩
  | some e =>
    dsimp only
    split_ifs with hrange hrepeat
    · exact ⟨⟨d,hd⟩,othersKept_refl r h⟩
    · exact ⟨⟨d,hd⟩,othersKept_refl r h⟩
    · obtain ⟨hdevice,hothers⟩ := device_append hd { d with entries := d.entries.set i (normalize { e with
        value := value
        valid := flag valid
        source := UInt8.ofNat source
        updatedMs := updatedMs }) } rfl kindChange (some (normalize { e with
        value := value
        valid := flag valid
        source := UInt8.ofNat source
        updatedMs := updatedMs })) now
      exact ⟨⟨_,hdevice⟩,hothers⟩

theorem shown_presence {r : CacheRegistry} {k : Catalog} {sample : ℕ → Sample} {stale : ℕ → Prop}
    {h presence : ℕ} {d : CacheSnapshot} (hd : device r h = some d) (hshown : k.Shown sample stale d)
    (hpresence : presence ≤ presenceUnavailable) (now : UInt64) :
    let r' := (cachePresence r h presence now).2
    ∃ d', device r' h = some d' ∧ k.Shown sample stale d' ∧ d'.presence.toNat = presence ∧ OthersKept r r' h := by
  intro r'
  by_cases hsame : d.presence.toNat = presence
  · have hkept : r' = r := by
      simp only [r', cachePresence, hd, if_neg (Nat.not_lt.mpr hpresence), ne_eq, hsame, not_true, if_false]
    exact ⟨d,hkept ▸ hd,hshown,hsame,hkept ▸ othersKept_refl r h⟩
  · have hchange : r' = append r h { d with presence := UInt8.ofNat presence } kindPresence none now := by
      simp only [r', cachePresence, hd, if_neg (Nat.not_lt.mpr hpresence), ne_eq, hsame, not_false_eq_true, if_true]
    obtain ⟨hdevice,hothers⟩ := device_append hd { d with presence := UInt8.ofNat presence } rfl kindPresence none now
    rw [hchange]
    refine ⟨_,hdevice,?_,?_,hothers⟩
    · exact ⟨hshown.subsystem,hshown.device,hshown.count,hshown.shape,hshown.current⟩
    · change (UInt8.ofNat presence).toNat = presence
      rw [UInt8.toNat_ofNat']
      exact Nat.mod_eq_of_lt (Nat.lt_of_le_of_lt hpresence (by decide))

/-- An accepted definition shows every sample; the handle is that of the slot. -/
theorem shown_define {r r' : CacheRegistry} {k : Catalog} (hk : k.Exportable) {sample : ℕ → Sample}
    (hfits : ∀ i < k.count, tooWide (sample i).value k.width = false) {h h' presence : ℕ}
    (hok : cacheDefine r h k.subsystem k.name k.count presence (k.describe sample) = (.ok,r',h')) :
    ∃ d, device r' h' = some d ∧ k.Shown sample (fun _ => False) d ∧ d.presence.toNat = presence ∧
      OthersKept r r' h' ∧ (h ≠ 0 → h' = h) ∧ (h = 0 → device r h' = none) := by
  unfold cacheDefine at hok
  split at hok
  · cases hok
  rename_i hargs
  split at hok
  · cases hok
  rename_i hlive
  split at hok
  · cases hok
  cases hslot : defineSlot r h with
  | none => simp [hslot] at hok
  | some slot =>
    obtain ⟨hlt,hsame,hfree⟩ := defineSlot_lt hlive hslot
    have hstage := @stage_eq (k.describe sample) k.count 0 []
      (fun j _ hj => hk.accepts (by omega) (hfits j (by omega)))
      (fun _ _ _ e he => absurd he List.not_mem_nil)
      (fun i j _ hij hj heq => by
        have hnames := hk.distinct i (by omega) j (by omega) heq
        omega)
    rw [hslot, hstage] at hok
    simp only [Prod.mk.injEq, true_and, List.nil_append] at hok
    obtain ⟨rfl,rfl⟩ := hok
    have hgeneration := nextNonzero_ne_zero r.generation
    refine ⟨⟨k.subsystem,k.name,nextNonzero r.generation,0,0,UInt8.ofNat presence,
      (List.range' 0 k.count).map fun j => normalize (k.describe sample j)⟩,?_,?_,?_,?_,hsame,?_⟩
    · rw [device, if_pos ⟨Nat.succ_ne_zero slot,hlt,by simpa using hgeneration⟩]
      simp only [Nat.add_sub_cancel, Function.update_self]
    · refine ⟨rfl,rfl,by simp,?_,?_⟩
      · intro i e he
        rw [List.getElem?_map, Option.map_eq_some_iff] at he
        obtain ⟨j,hj,rfl⟩ := he
        obtain ⟨hi,rfl⟩ := List.getElem?_eq_some_iff.mp hj
        simp [Catalog.describe, Catalog.entry]
      · intro i hi _
        rw [List.getElem?_map, List.getElem?_range' (by simpa using hi)]
        simp
    · rw [not_or, not_or, not_or] at hargs
      change (UInt8.ofNat presence).toNat = presence
      rw [UInt8.toNat_ofNat']
      exact Nat.mod_eq_of_lt (Nat.lt_of_le_of_lt (Nat.not_lt.mp hargs.2.2.2) (by decide))
    · intro j hj
      by_cases hzero : j = 0
      · subst hzero
        simp [device]
      · refine device_congr ?_
        dsimp only
        rw [Function.update_of_ne (by omega)]
    · intro hzero
      rw [device, if_neg]
      intro hall
      exact hall.2.2 (by simpa using hfree hzero)

/-- A name is taken if another live device has it. -/
theorem nameTaken_iff {r : CacheRegistry} {h : ℕ} {subsystem name : Name} :
    nameTaken r h subsystem name = true ↔
      ∃ h' d, h' ≠ h ∧ device r h' = some d ∧ d.subsystem = subsystem ∧ d.device = name := by
  rw [nameTaken, List.any_eq_true]
  constructor
  · rintro ⟨i,hi,htaken⟩
    obtain ⟨hlive,hne,hsub,hdev⟩ := of_decide_eq_true htaken
    exact ⟨i + 1,_,hne,device_of_slot (List.mem_range.mp hi) hlive,hsub,hdev⟩
  · rintro ⟨h',d,hne,hd,hsub,hdev⟩
    obtain ⟨hzero,hle,rfl,hlive⟩ := device_eq_some hd
    exact ⟨h' - 1,List.mem_range.mpr (by omega),decide_eq_true ⟨hlive,by omega,hsub,hdev⟩⟩

theorem nameTaken_congr {r r' : CacheRegistry} {h : ℕ} (hothers : OthersKept r r' h) (subsystem name : Name) :
    nameTaken r' h subsystem name = nameTaken r h subsystem name := by
  rw [Bool.eq_iff_iff, nameTaken_iff, nameTaken_iff]
  constructor
  · rintro ⟨h',d,hne,hd,hname⟩
    exact ⟨h',d,hne,(hothers h' hne).symm.trans hd,hname⟩
  · rintro ⟨h',d,hne,hd,hname⟩
    exact ⟨h',d,hne,(hothers h' hne).trans hd,hname⟩

/-- The name that a device has already is not taken. -/
theorem nameTaken_self {r : CacheRegistry} (hr : r.WellFormed) {h : ℕ} {d : CacheSnapshot} (hd : device r h = some d) :
    nameTaken r h d.subsystem d.device = false := by
  rw [← Bool.not_eq_true, nameTaken_iff]
  rintro ⟨h',d',hne,hd',hsub,hdev⟩
  obtain ⟨hzero,hle,hget,hlive⟩ := device_eq_some hd
  obtain ⟨hzero',hle',hget',hlive'⟩ := device_eq_some hd'
  have hslot := hr.names (h' - 1) (by omega) (h - 1) (by omega) (hget' ▸ hlive') (hget ▸ hlive)
    (by rw [hget, hget', hsub]) (by rw [hget, hget', hdev])
  omega

/-- Redefining a live device under a name that is free is accepted. -/
theorem define_ok {r : CacheRegistry} {k : Catalog} (hk : k.Exportable) {sample : ℕ → Sample}
    (hfits : ∀ i < k.count, tooWide (sample i).value k.width = false) {h presence : ℕ} {d : CacheSnapshot}
    (hd : device r h = some d) (hfree : nameTaken r h k.subsystem k.name = false)
    (hpresence : presence ≤ presenceUnavailable) :
    ∃ r', cacheDefine r h k.subsystem k.name k.count presence (k.describe sample) = (.ok,r',h) := by
  obtain ⟨hzero,hle,hget,hgeneration⟩ := device_eq_some hd
  have hargs : ¬(nameValid k.subsystem = false ∨ nameValid k.name = false ∨ cacheResourcesMax < k.count ∨
      presenceUnavailable < presence) := by
    have hcount := hk.count
    simp only [hk.subsystem, hk.name, Bool.true_eq_false, false_or]
    omega
  have hstage := @stage_eq (k.describe sample) k.count 0 []
    (fun j _ hj => hk.accepts (by omega) (hfits j (by omega)))
    (fun _ _ _ e he => absurd he List.not_mem_nil)
    (fun i j _ hij hj heq => by
      have hnames := hk.distinct i (by omega) j (by omega) heq
      omega)
  unfold cacheDefine
  rw [if_neg hargs, if_neg (fun hboth => absurd (hd.symm.trans hboth.2) (Option.some_ne_none d)), if_neg (by simp [hfree]),
    defineSlot, if_pos hzero, hstage]
  have hslot : h - 1 + 1 = h := Nat.sub_add_cancel (Nat.pos_of_ne_zero hzero)
  simp only [hslot]
  exact ⟨_,rfl⟩

/-- What the staging loop has accepted. -/
theorem stage_accepts {describe : ℕ → CacheEntry} {left i : ℕ} {staged entries : List CacheEntry}
    (h : stage describe left i staged = some entries) :
    (∀ r, i ≤ r → r < i + left → entryAccepted (describe r) = true ∧ ∀ e ∈ staged, e.id ≠ (describe r).id) ∧
      ∀ r s, i ≤ r → r < s → s < i + left → (describe r).id ≠ (describe s).id := by
  induction left generalizing i staged with
  | zero => exact ⟨fun r _ _ => by omega,fun r s _ _ _ => by omega⟩
  | succ left ih =>
    rw [stage] at h
    split_ifs at h with haccept hrepeat
    obtain ⟨hrest,hdistinct⟩ := ih h
    have hfresh : ∀ e ∈ staged, e.id ≠ (describe i).id := by
      intro e he heq
      exact hrepeat (List.any_eq_true.mpr ⟨e,he,beq_iff_eq.mpr heq⟩)
    constructor
    · intro r hr hlt
      rcases Nat.eq_or_lt_of_le hr with rfl | hr
      · exact ⟨Bool.eq_true_of_not_eq_false haccept,hfresh⟩
      · obtain ⟨hr',hnew⟩ := hrest r hr (by omega)
        exact ⟨hr',fun e he => hnew e (List.mem_append_left _ he)⟩
    · intro r s hr hrs hlt
      rcases Nat.eq_or_lt_of_le hr with rfl | hr
      · have hnew := (hrest s (by omega) (by omega)).2 (normalize (describe i)) (by simp)
        rwa [normalize_id] at hnew
      · exact hdistinct r s hr hrs (by omega)

/-- A catalog that the registry has accepted can be exported. -/
theorem exportable_of_define {r r' : CacheRegistry} {k : Catalog} {sample : ℕ → Sample} {h h' presence : ℕ}
    (hok : cacheDefine r h k.subsystem k.name k.count presence (k.describe sample) = (.ok,r',h'))
    (hwidth : k.width ≠ 0 ∧ k.width.toNat ≤ 64) : k.Exportable := by
  unfold cacheDefine at hok
  split at hok
  · cases hok
  rename_i hargs
  simp only [not_or, Bool.not_eq_false, Nat.not_lt] at hargs
  split at hok
  · cases hok
  split at hok
  · cases hok
  cases hslot : defineSlot r h with
  | none => simp [hslot] at hok
  | some slot =>
    cases hstage : stage (k.describe sample) k.count 0 [] with
    | none => simp [hslot, hstage] at hok
    | some entries =>
      obtain ⟨haccept,hdistinct⟩ := stage_accepts hstage
      refine ⟨hargs.1,hargs.2.1,hargs.2.2.1,?_,?_,hwidth⟩
      · intro i hi
        have hone := (haccept i (Nat.zero_le i) (by omega)).1
        simp only [entryAccepted, Bool.and_eq_true] at hone
        exact hone.1.1
      · intro i hi j hj heq
        rcases Nat.lt_trichotomy i j with hlt | hij | hgt
        · exact absurd heq (hdistinct i j (Nat.zero_le i) hlt (by omega))
        · exact hij
        · exact absurd heq.symm (hdistinct j i (Nat.zero_le j) hgt (by omega))

end Bvstk.Cache
