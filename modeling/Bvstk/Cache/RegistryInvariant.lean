import Bvstk.Cache.Registry
import Bvstk.Library.OverwriteRing
import Mathlib.Data.List.Nodup
import Mathlib.Tactic.SplitIfs

/-! # What a registry operation can do

Every successful operation either journals one change of one device or installs
a fresh catalog; all invariants of the registry are read off that case analysis.
The replica `CacheCopy` is what a remote reader holds of a device.
-/
namespace Bvstk.Cache

/-! ## Well-formed catalogs -/

structure CacheEntry.Valid (e : CacheEntry) : Prop where
  name : nameValid e.id = true
  width : e.widthBits ≠ 0 ∧ e.widthBits.toNat ≤ 64
  source : e.source.toNat ≤ sourceDevice
  flag : e.valid = 0 ∨ e.valid = 1
  fits : tooWide e.value e.widthBits = false
  cleared : e.valid = 0 → e.value = 0 ∧ e.source.toNat = sourceUnknown ∧ e.updatedMs = 0

structure CacheSnapshot.Valid (d : CacheSnapshot) : Prop where
  subsystem : nameValid d.subsystem = true
  device : nameValid d.device = true
  count : d.count ≤ cacheResourcesMax
  presence : d.presence.toNat ≤ presenceUnavailable
  entries : ∀ e ∈ d.entries, e.Valid
  ids : (d.entries.map CacheEntry.id).Nodup

theorem nameValid_length {s : Name} (h : nameValid s = true) : 0 < s.length ∧ s.length < cacheNameMax := by
  simp only [nameValid, Bool.and_eq_true, decide_eq_true_eq] at h
  exact ⟨List.length_pos_iff.mpr h.1.1,h.1.2⟩

@[simp] theorem tooWide_zero (width : UInt8) : tooWide 0 width = false := by
  simp [tooWide]

@[simp] theorem normalize_id (e : CacheEntry) : (normalize e).id = e.id := by
  unfold normalize
  split <;> rfl

@[simp] theorem normalize_widthBits (e : CacheEntry) : (normalize e).widthBits = e.widthBits := by
  unfold normalize
  split <;> rfl

/-- Normalisation clears an invalid entry and canonicalises the flag of a valid one. -/
theorem normalize_valid {e : CacheEntry} (hname : nameValid e.id = true)
    (hwidth : e.widthBits ≠ 0 ∧ e.widthBits.toNat ≤ 64) (hsource : e.source.toNat ≤ sourceDevice)
    (hfits : e.valid ≠ 0 → tooWide e.value e.widthBits = false) : (normalize e).Valid := by
  unfold normalize
  split
  · rename_i hv
    exact ⟨hname,hwidth,Nat.zero_le _,Or.inl hv,tooWide_zero _,fun _ => ⟨rfl,rfl,rfl⟩⟩
  · rename_i hv
    refine ⟨hname,hwidth,hsource,Or.inr rfl,hfits hv,fun h => ?_⟩
    exact absurd h (by decide : (1 : UInt8) ≠ 0)

theorem normalize_of_accepted {a : CacheEntry} (h : entryAccepted a = true) : (normalize a).Valid := by
  simp only [entryAccepted, Bool.and_eq_true, decide_eq_true_eq, Bool.not_eq_true',
    Bool.and_eq_false_iff, decide_eq_false_iff_not] at h
  obtain ⟨⟨hname,hw,hw',hs⟩,hfits⟩ := h
  exact normalize_valid hname ⟨hw,hw'⟩ hs (fun hv => hfits.resolve_left (fun hn => hn hv))

/-- A staged catalog has as many entries as asked for, all valid and distinct. -/
theorem stage_spec {describe : ℕ → CacheEntry} {left i : ℕ} {staged entries : List CacheEntry}
    (h : stage describe left i staged = some entries) (hvalid : ∀ e ∈ staged, e.Valid)
    (hids : (staged.map CacheEntry.id).Nodup) :
    entries.length = staged.length + left ∧ (∀ e ∈ entries, e.Valid) ∧
      (entries.map CacheEntry.id).Nodup := by
  induction left generalizing i staged with
  | zero =>
    simp only [stage, Option.some.injEq] at h
    subst h
    exact ⟨rfl,hvalid,hids⟩
  | succ left ih =>
    simp only [stage] at h
    split_ifs at h with hacc hdup
    have hnew : (normalize (describe i)).Valid := normalize_of_accepted (by simpa using hacc)
    have hfresh : (describe i).id ∉ staged.map CacheEntry.id := by
      intro hmem
      obtain ⟨b,hb,he⟩ := List.mem_map.mp hmem
      exact hdup (List.any_eq_true.mpr ⟨b,hb,beq_iff_eq.mpr he⟩)
    obtain ⟨hlen,hv,hn⟩ := ih h
      (by
        intro e he
        rcases List.mem_append.mp he with he | he
        · exact hvalid e he
        · exact List.mem_singleton.mp he ▸ hnew)
      (by
        rw [List.map_append, List.nodup_append]
        refine ⟨hids,List.nodup_singleton _,?_⟩
        intro a ha b hb
        simp only [List.map_singleton, List.mem_singleton, normalize_id] at hb
        rintro rfl
        exact hfresh (hb ▸ ha))
    refine ⟨?_,hv,hn⟩
    simp only [List.length_append, List.length_singleton] at hlen
    omega

/-! ## Replicas -/

/-- The part of a device that a remote reader reproduces. -/
structure CacheCopy where
  generation : ℕ
  revision : ℕ
  presence : UInt8
  entries : List CacheEntry
  deriving DecidableEq, Repr

def CacheSnapshot.copy (d : CacheSnapshot) : CacheCopy :=
  ⟨d.generation,d.revision,d.presence,d.entries⟩

def replaceEntry (entries : List CacheEntry) (e : CacheEntry) : List CacheEntry :=
  entries.map fun old => if old.id = e.id then e else old

/-- A change replaces the entry of its identifier; a presence record only the presence. -/
def CacheCopy.apply (s : CacheCopy) (c : CacheChange) : CacheCopy :=
  ⟨s.generation,c.revision,c.presence,
    if c.kind = kindChange then replaceEntry s.entries c.entry else s.entries⟩

@[simp] theorem CacheCopy.apply_generation (s : CacheCopy) (c : CacheChange) :
    (s.apply c).generation = s.generation := rfl
@[simp] theorem CacheCopy.apply_revision (s : CacheCopy) (c : CacheChange) :
    (s.apply c).revision = c.revision := rfl

/-- With distinct identifiers, replacing by name is writing the slot. -/
theorem replaceEntry_eq_set {entries : List CacheEntry} (hids : (entries.map CacheEntry.id).Nodup)
    {i : ℕ} {old e : CacheEntry} (hold : entries[i]? = some old) (hid : e.id = old.id) :
    replaceEntry entries e = entries.set i e := by
  apply List.ext_getElem?
  intro j
  rw [replaceEntry, List.getElem?_map, List.getElem?_set]
  obtain ⟨hi,hget⟩ := List.getElem?_eq_some_iff.mp hold
  by_cases hij : i = j
  · subst hij
    simp [hget, hid, hi]
  · rw [if_neg hij]
    cases hj : entries[j]? with
    | none => rfl
    | some e' =>
      have hne : e'.id ≠ e.id := by
        intro heq
        apply hij
        obtain ⟨hj',hget'⟩ := List.getElem?_eq_some_iff.mp hj
        have hinj := List.nodup_iff_injective_getElem.mp hids
        have h : (⟨i,by simpa using hi⟩ : Fin (entries.map CacheEntry.id).length) = ⟨j,by simpa using hj'⟩ := by
          apply hinj
          simp [hget, hget', heq, hid]
        exact congrArg Fin.val h
      simp [hne]

/-! ## Operations and their effects -/

inductive RegistryOp where
  | define (handle : ℕ) (subsystem name : Name) (count state : ℕ) (describe : ℕ → CacheEntry)
  | put (handle index : ℕ) (value : UInt64) (valid : Bool) (source : ℕ) (updatedMs nowMs : UInt64)
  | presence (handle state : ℕ) (nowMs : UInt64)

def RegistryOp.run (r : CacheRegistry) : RegistryOp → Status × CacheRegistry
  | .define handle subsystem name count state describe =>
    let out := cacheDefine r handle subsystem name count state describe
    (out.1,out.2.1)
  | .put handle index value valid source updatedMs nowMs =>
    cachePut r handle index value valid source updatedMs nowMs
  | .presence handle state nowMs => cachePresence r handle state nowMs

/-- A journal record that can be put on the wire. -/
structure CacheChange.Recorded (c : CacheChange) : Prop where
  revision : c.revision < 2^64
  kind : c.kind = kindChange ∧ c.entry.Valid ∨ c.kind = kindPresence

/-- What holds of the devices and the journal of every reachable registry. -/
structure CacheRegistry.WellFormed (r : CacheRegistry) : Prop where
  generation : r.generation < 2^32
  bounded : ∀ i, (r.devices i).generation < 2^32 ∧ (r.devices i).revision < 2^64
  recorded : ∀ slot, (r.journal slot).handle ≠ 0 → (r.journal slot).Recorded
  valid : ∀ i < cacheDevicesMax, (r.devices i).generation ≠ 0 → (r.devices i).Valid
  names : ∀ i < cacheDevicesMax, ∀ j < cacheDevicesMax,
    (r.devices i).generation ≠ 0 → (r.devices j).generation ≠ 0 →
    (r.devices i).subsystem = (r.devices j).subsystem → (r.devices i).device = (r.devices j).device → i = j

/-- The change `c` takes the device `d` behind `h` to `d'`. -/
structure Changes (h : ℕ) (d d' : CacheSnapshot) (c : CacheChange) : Prop where
  valid : d'.Valid
  subsystem : d'.subsystem = d.subsystem
  device : d'.device = d.device
  copy : d'.copy = d.copy.apply c
  handle : c.handle = h
  generation : c.generation = d.generation
  revision : c.revision = (d.revision + 1) % 2^64
  kind : c.kind = kindChange ∧ c.entry.Valid ∨ c.kind = kindPresence

/-- The registry after journaling `c` and storing `d'` behind `h`. -/
def CacheRegistry.record (r : CacheRegistry) (h : ℕ) (d' : CacheSnapshot) (c : CacheChange) :
    CacheRegistry where
  generation := r.generation
  head := (r.head + 1) % 2^64
  devices := Function.update r.devices (h - 1) d'
  journal := Function.update r.journal (r.head % cacheJournalSize) c

/-- The registry after installing the catalog `d` in a slot. -/
def CacheRegistry.install (r : CacheRegistry) (slot : ℕ) (d : CacheSnapshot) : CacheRegistry :=
  { r with generation := nextNonzero r.generation, devices := Function.update r.devices slot d }

/-- The three things an operation can do. -/
inductive Effect (r : CacheRegistry) : CacheRegistry → Prop where
  | same : Effect r r
  | changed {h : ℕ} {d d' : CacheSnapshot} {c : CacheChange} (hd : device r h = some d)
      (hc : Changes h d d' c) (hserial : c.serial = (r.head + 1) % 2^64) : Effect r (r.record h d' c)
  | defined {slot : ℕ} {d : CacheSnapshot} (hslot : slot < cacheDevicesMax) (hvalid : d.Valid)
      (hgeneration : d.generation = nextNonzero r.generation) (hrevision : d.revision = 0)
      (hnames : ∀ i < cacheDevicesMax, i ≠ slot → (r.devices i).generation ≠ 0 →
        (r.devices i).subsystem = d.subsystem → (r.devices i).device ≠ d.device) :
      Effect r (r.install slot d)

theorem device_eq_some {r : CacheRegistry} {h : ℕ} {d : CacheSnapshot} (hd : device r h = some d) :
    h ≠ 0 ∧ h ≤ cacheDevicesMax ∧ r.devices (h - 1) = d ∧ d.generation ≠ 0 := by
  unfold device at hd
  split_ifs at hd with hh
  simp only [Option.some.injEq] at hd
  subst hd
  exact ⟨hh.1,hh.2.1,rfl,hh.2.2⟩

theorem device_of_slot {r : CacheRegistry} {i : ℕ} (hi : i < cacheDevicesMax)
    (hg : (r.devices i).generation ≠ 0) : device r (i + 1) = some (r.devices i) := by
  rw [device, if_pos]
  · rfl
  · exact ⟨Nat.succ_ne_zero i,hi,hg⟩

/-- A snapshot is the live device under that name, stamped with the capture time. -/
theorem snapshot_spec {r : CacheRegistry} {subsystem name : Name} {now : UInt64} {v : CacheSnapshot}
    {handle cursor : ℕ} (h : cacheSnapshot r subsystem name now = some (v,handle,cursor)) :
    ∃ d, device r handle = some d ∧ v = { d with capturedMs := now } ∧ cursor = r.head ∧
      d.subsystem = subsystem ∧ d.device = name := by
  simp only [cacheSnapshot, Option.map_eq_some_iff, Prod.mk.injEq] at h
  obtain ⟨i,hfind,rfl,rfl,rfl⟩ := h
  have hi := List.mem_range.mp (List.mem_of_find?_eq_some hfind)
  have hmatch := List.find?_some hfind
  simp only [decide_eq_true_eq] at hmatch
  exact ⟨_,device_of_slot hi hmatch.1,rfl,rfl,hmatch.2.1.symm,hmatch.2.2.symm⟩

theorem CacheRegistry.WellFormed.device_valid {r : CacheRegistry} (hr : r.WellFormed) {h : ℕ}
    {d : CacheSnapshot} (hd : device r h = some d) : d.Valid := by
  obtain ⟨h0,hle,rfl,hg⟩ := device_eq_some hd
  exact hr.valid _ (by omega) hg

theorem nextNonzero_ne_zero (g : ℕ) : nextNonzero g ≠ 0 := by
  unfold nextNonzero
  split
  · exact one_ne_zero
  · assumption

theorem nextNonzero_lt (g : ℕ) : nextNonzero g < 2^32 := by
  unfold nextNonzero
  split
  · decide
  · exact Nat.mod_lt _ (by decide)

theorem put_effect {r : CacheRegistry} (hr : r.WellFormed) (handle index : ℕ) (value : UInt64)
    (valid : Bool) (source : ℕ) (updatedMs nowMs : UInt64) :
    Effect r (cachePut r handle index value valid source updatedMs nowMs).2 := by
  unfold cachePut
  cases hd : device r handle with
  | none => exact .same
  | some d =>
    have hdv := hr.device_valid hd
    dsimp only
    cases he : d.entries[index]? with
    | none => exact .same
    | some e =>
      dsimp only
      split_ifs with hbad hnoop
      · exact .same
      · exact .same
      · push Not at hbad hnoop
        have hev := hdv.entries e (List.mem_of_getElem? he)
        set e' := normalize { e with
          value := value
          valid := flag valid
          source := UInt8.ofNat source
          updatedMs := updatedMs } with he'
        have hid : e'.id = e.id := normalize_id _
        have hsource : (UInt8.ofNat source).toNat ≤ sourceDevice := by
          rw [UInt8.toNat_ofNat']
          exact (Nat.mod_le _ _).trans hbad.1
        have hnew : e'.Valid := by
          refine normalize_valid hev.name hev.width hsource ?_
          intro hv
          cases valid with
          | false => exact absurd rfl hv
          | true => simpa using hbad.2 rfl
        have hset := replaceEntry_eq_set hdv.ids he hid
        refine .changed hd (c := ⟨_,_,nowMs,d.generation,handle,kindChange,d.presence,e'⟩)
          ⟨?_,rfl,rfl,?_,rfl,rfl,rfl,Or.inl ⟨rfl,hnew⟩⟩ rfl
        · refine ⟨hdv.subsystem,hdv.device,?_,hdv.presence,?_,?_⟩
          · simpa [CacheSnapshot.count] using hdv.count
          · intro a ha
            rcases List.mem_or_eq_of_mem_set ha with ha | rfl
            · exact hdv.entries a ha
            · exact hnew
          · have hmap : (d.entries.set index e').map CacheEntry.id = d.entries.map CacheEntry.id := by
              obtain ⟨hi,hget⟩ := List.getElem?_eq_some_iff.mp he
              rw [List.map_set, hid, ← hget, ← List.getElem_map CacheEntry.id (h := by simpa using hi)]
              exact List.set_getElem_self _
            exact hmap ▸ hdv.ids
        · simp only [CacheSnapshot.copy, CacheCopy.apply, hset, ↓reduceIte]

theorem presence_effect {r : CacheRegistry} (hr : r.WellFormed) (handle presence : ℕ) (nowMs : UInt64) :
    Effect r (cachePresence r handle presence nowMs).2 := by
  unfold cachePresence
  cases hd : device r handle with
  | none => exact .same
  | some d =>
    have hdv := hr.device_valid hd
    dsimp only
    split_ifs with hbad hnew
    · exact .same
    · refine .changed hd
        (c := ⟨_,_,nowMs,d.generation,handle,kindPresence,UInt8.ofNat presence,CacheEntry.zero⟩)
        ⟨⟨hdv.subsystem,hdv.device,hdv.count,?_,hdv.entries,hdv.ids⟩,rfl,rfl,rfl,rfl,rfl,rfl,Or.inr rfl⟩ rfl
      change (UInt8.ofNat presence).toNat ≤ _
      rw [UInt8.toNat_ofNat']
      exact (Nat.mod_le _ _).trans (not_lt.mp hbad)
    · exact .same

theorem defineSlot_lt {r : CacheRegistry} {handle slot : ℕ}
    (hlive : ¬(handle ≠ 0 ∧ device r handle = none)) (h : defineSlot r handle = some slot) :
    slot < cacheDevicesMax ∧ (handle ≠ 0 → slot + 1 = handle) ∧
      (handle = 0 → (r.devices slot).generation = 0) := by
  unfold defineSlot at h
  split_ifs at h with h0
  · simp only [Option.some.injEq] at h
    have hsome : device r handle ≠ none := fun hn => hlive ⟨h0,hn⟩
    obtain ⟨d,hd⟩ := Option.ne_none_iff_exists'.mp hsome
    have hle := (device_eq_some hd).2.1
    exact ⟨by omega,fun _ => by omega,fun hz => absurd hz h0⟩
  · have hmem := List.mem_of_find?_eq_some h
    have hzero := List.find?_some h
    refine ⟨List.mem_range.mp hmem,fun hn => absurd hn h0,fun _ => ?_⟩
    simpa using hzero

theorem define_effect {r : CacheRegistry} (handle : ℕ) (subsystem name : Name)
    (count presence : ℕ) (describe : ℕ → CacheEntry) :
    Effect r (cacheDefine r handle subsystem name count presence describe).2.1 := by
  unfold cacheDefine
  split_ifs with hargs hlive htaken
  · exact .same
  · exact .same
  · exact .same
  · cases hslot : defineSlot r handle with
    | none => exact .same
    | some slot =>
      dsimp only
      cases hstage : stage describe count 0 [] with
      | none => exact .same
      | some entries =>
        push Not at hargs
        obtain ⟨hs,hn,hcount,hpres⟩ := hargs
        obtain ⟨hlen,hvalid,hids⟩ := stage_spec hstage (by simp) (by simp)
        obtain ⟨hlt,hsame,hfree⟩ := defineSlot_lt hlive hslot
        refine .defined hlt
          (d := ⟨subsystem,name,nextNonzero r.generation,0,0,UInt8.ofNat presence,entries⟩)
          ⟨by simpa using hs,by simpa using hn,?_,?_,hvalid,hids⟩ rfl rfl ?_
        · simp only [CacheSnapshot.count, hlen, List.length_nil, Nat.zero_add]
          exact hcount
        · change (UInt8.ofNat presence).toNat ≤ _
          rw [UInt8.toNat_ofNat']
          exact (Nat.mod_le _ _).trans hpres
        · intro i hi hne hg hsub hdev
          apply htaken
          refine List.any_eq_true.mpr ⟨i,List.mem_range.mpr hi,decide_eq_true ⟨hg,?_,hsub,hdev⟩⟩
          intro heq
          have h0 : handle ≠ 0 := by omega
          have := hsame h0
          omega

/-- Whatever the arguments, an operation has one of the three effects. -/
theorem run_effect {r : CacheRegistry} (hr : r.WellFormed) (op : RegistryOp) : Effect r (op.run r).2 := by
  cases op with
  | define handle subsystem name count state describe => exact define_effect _ _ _ _ _ _
  | put handle index value valid source updatedMs nowMs => exact put_effect hr _ _ _ _ _ _ _
  | presence handle state nowMs => exact presence_effect hr _ _ _

theorem init_wellFormed : cacheInit.WellFormed where
  generation := by decide
  bounded := fun _ => ⟨Nat.two_pow_pos 32,Nat.two_pow_pos 64⟩
  recorded := fun _ h => absurd rfl h
  valid := fun _ _ hg => absurd rfl hg
  names := fun _ _ _ _ hg => absurd rfl hg

theorem Changes.recorded {h : ℕ} {d d' : CacheSnapshot} {c : CacheChange} (hc : Changes h d d' c) :
    c.Recorded := by
  refine ⟨?_,hc.kind⟩
  rw [hc.revision]
  exact Nat.mod_lt _ (by decide)

theorem Changes.generation_eq {h : ℕ} {d d' : CacheSnapshot} {c : CacheChange} (hc : Changes h d d' c) :
    d'.generation = d.generation := congrArg CacheCopy.generation hc.copy

theorem Changes.revision_eq {h : ℕ} {d d' : CacheSnapshot} {c : CacheChange} (hc : Changes h d d' c) :
    d'.revision = c.revision := congrArg CacheCopy.revision hc.copy

theorem Effect.wellFormed {r r' : CacheRegistry} (h : Effect r r') (hr : r.WellFormed) : r'.WellFormed := by
  cases h with
  | same => exact hr
  | @changed h d d' c hd hc hserial =>
    obtain ⟨h0,hle,hget,hg⟩ := device_eq_some hd
    -- the changed slot keeps its name, so it stands for the old one below
    have hsame : ∀ i, ((r.record h d' c).devices i).subsystem = (r.devices i).subsystem ∧
        ((r.record h d' c).devices i).device = (r.devices i).device ∧
        ((r.record h d' c).devices i).generation = (r.devices i).generation := by
      intro i
      by_cases hi : i = h - 1
      · subst hi
        simp only [CacheRegistry.record, Function.update_self, hget]
        exact ⟨hc.subsystem,hc.device,hc.generation_eq⟩
      · simp [CacheRegistry.record, Function.update_of_ne hi]
    refine ⟨hr.generation,?_,?_,?_,?_⟩
    · intro i
      rw [(hsame i).2.2]
      refine ⟨(hr.bounded i).1,?_⟩
      by_cases hih : i = h - 1
      · subst hih
        simp only [CacheRegistry.record, Function.update_self, hc.revision_eq]
        exact hc.recorded.revision
      · simp only [CacheRegistry.record, Function.update_of_ne hih]
        exact (hr.bounded i).2
    · intro slot
      by_cases hs : slot = r.head % cacheJournalSize
      · subst hs
        simp only [CacheRegistry.record, Function.update_self]
        exact fun _ => hc.recorded
      · simp only [CacheRegistry.record, Function.update_of_ne hs]
        exact hr.recorded slot
    · intro i hi hgi
      by_cases hih : i = h - 1
      · subst hih
        simpa [CacheRegistry.record] using hc.valid
      · simp only [CacheRegistry.record, Function.update_of_ne hih] at hgi ⊢
        exact hr.valid i hi hgi
    · intro i hi j hj hgi hgj hs hn
      simp only [hsame] at hgi hgj hs hn
      exact hr.names i hi j hj hgi hgj hs hn
  | @defined slot d hslot hvalid hgen hrev hnames =>
    refine ⟨nextNonzero_lt _,?_,hr.recorded,?_,?_⟩
    · intro i
      by_cases his : i = slot
      · subst his
        simp only [CacheRegistry.install, Function.update_self, hgen, hrev]
        exact ⟨nextNonzero_lt _,by decide⟩
      · simp only [CacheRegistry.install, Function.update_of_ne his]
        exact hr.bounded i
    · intro i hi hgi
      by_cases his : i = slot
      · subst his
        simpa [CacheRegistry.install] using hvalid
      · simp only [CacheRegistry.install, Function.update_of_ne his] at hgi ⊢
        exact hr.valid i hi hgi
    · intro i hi j hj hgi hgj hs hn
      simp only [CacheRegistry.install] at hgi hgj hs hn
      by_cases his : i = slot <;> by_cases hjs : j = slot
      · rw [his, hjs]
      · subst his
        simp only [Function.update_self, Function.update_of_ne hjs] at hgj hs hn
        exact absurd hn.symm (hnames j hj hjs hgj hs.symm)
      · subst hjs
        simp only [Function.update_self, Function.update_of_ne his] at hgi hs hn
        exact absurd hn (hnames i hi his hgi hs)
      · simp only [Function.update_of_ne his, Function.update_of_ne hjs] at hgi hgj hs hn
        exact hr.names i hi j hj hgi hgj hs hn

end Bvstk.Cache
