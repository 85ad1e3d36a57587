import Bvstk.Config.ProfileDocument

/-! # Reading the document of a profile

Part by part, the parser finds in a text that means the document of a profile what the profile
has; so it reads the whole text as this profile.
-/
namespace Bvstk.Config.Profile
open JsonText (Means Tree)
open I2cJson (decimal)

/-! ## Reading the parts -/

section
variable {n : ℕ} {v : View}

theorem nonempty_shows {s : Name} {cap : ℕ} (h : Shows n (some (.string s)) v) (hs : Printable s) (hcap : s.length < cap)
    (hne : s ≠ []) : nonempty cap v = some s := by
  rw [nonempty, h.text hs hcap, Option.filter_some, if_pos (by simpa using hne)]

/-- A member that is there is read. -/
theorem optional_shows {α : Type} {t : Tree} (h : Shows n (some t) v) (read : View → Option α) (default : α) :
    optional v read default = read v := by
  obtain ⟨view,rfl,-⟩ := h.isSome
  rfl

/-- A text that is left out when it is empty. -/
theorem optional_text {s : Name} (h : Shows n (unlessEmpty s) v) {read : View → Option Name}
    (hread : Shows n (some (.string s)) v → s ≠ [] → read v = some s) : optional v read [] = some s := by
  by_cases hne : s = []
  · rw [unlessEmpty, if_pos hne] at h
    rw [shows_none h, optional, hne]
  · rw [unlessEmpty, if_neg hne] at h
    rw [optional_shows h, hread h hne]

theorem device_shows {p : ProfileMetadata} (hp : MetadataOk p) (hn : n ≤ depthMax - 1)
    (h : Shows (n + 1) (some (deviceTree p)) v) : device v = some (p.model,p.vendor,p.deviceClass,p.label) := by
  obtain ⟨f,hf,hall⟩ := fields_objectOf tables.device hn (by simp [deviceKeys]) (by simp) h
  have hmodel : Shows n (some (.string p.model)) (f "model") := by simpa [List.lookup_cons] using hall "model"
  have hvendor : Shows n (unlessEmpty p.vendor) (f "vendor") := by simpa [List.lookup_cons] using hall "vendor"
  have hclass : Shows n (some (.string p.deviceClass)) (f "class") := by simpa [List.lookup_cons] using hall "class"
  have hlabel : Shows n (unlessEmpty p.label) (f "label") := by simpa [List.lookup_cons] using hall "label"
  have hword : Printable p.deviceClass ∧ p.deviceClass.length < 16 := by
    have hall : ∀ s ∈ deviceClasses, Printable s ∧ s.length < 16 := by decide
    exact hall _ (by simpa [classValid] using hp.deviceClass)
  rw [device, hf]
  simp only [Option.bind_eq_bind, Option.bind_some]
  rw [nonempty_shows hmodel hp.model.2.2 hp.model.2.1 hp.model.1, Option.bind_some,
    optional_text hvendor fun h hne => nonempty_shows h hp.vendor.2 hp.vendor.1 hne, Option.bind_some,
    optional_shows hclass, hclass.text hword.1 hword.2, Option.filter_some, if_pos hp.deviceClass, Option.bind_some,
    optional_text hlabel fun h hne => nonempty_shows h hp.label.2 hp.label.1 hne, Option.bind_some]

/-- Names of files have no control characters. -/
theorem assetName_printable {s extension : Name} (h : assetNameValid s extension = true) (hextension : Printable extension) :
    Printable s ∧ s.length < registerMapNameMax := by
  have hbyte : ∀ b : UInt8, isWord b = true → 32 ≤ b ∧ b ≠ 127 := by
    have hall : ∀ k : Fin 256, isWord (UInt8.ofNat k) = true → 32 ≤ UInt8.ofNat k ∧ UInt8.ofNat k ≠ 127 := by
      decide +kernel
    intro b hb
    have hk := hall ⟨b.toNat,b.toNat_lt⟩
    rw [UInt8.ofNat_toNat] at hk
    exact hk hb
  rw [assetNameValid, Bool.and_eq_true, decide_eq_true_eq, Bool.or_eq_true] at h
  refine ⟨?_,h.1⟩
  rcases h.2 with hnil | h
  · rw [beq_iff_eq.mp hnil]
    exact fun _ hb => nomatch hb
  · rw [Bool.and_eq_true, Bool.and_eq_true, beq_iff_eq, List.all_eq_true] at h
    intro b hb
    rw [← List.take_append_drop (s.length - extension.length) s, List.mem_append, h.1.2] at hb
    rcases hb with hb | hb
    · exact hbyte b (h.2 b hb)
    · exact hextension b hb

theorem assets_shows {p : ProfileMetadata} (hp : MetadataOk p) {r : Views}
    (hmap : Shows n (unlessEmpty p.registerMap) (r "register_map")) (hview : Shows n (unlessEmpty p.view) (r "view")) :
    assets r = some (p.registerMap,p.view) := by
  have hvalid := hp.registerMap
  rw [registerMapValid, Bool.and_eq_true] at hvalid
  obtain ⟨hmapText,hmapLength⟩ := assetName_printable hvalid.1 (by decide)
  obtain ⟨hviewText,hviewLength⟩ := assetName_printable hp.view (by decide)
  have hfirst : optional (r "register_map") (fun v => (nonempty registerMapNameMax v).filter (registerMapValid ·)) [] =
      some p.registerMap :=
    optional_text hmap fun h hne => by
      rw [nonempty_shows h hmapText hmapLength hne, Option.filter_some, if_pos hp.registerMap]
  have hsecond : optional (r "view") (fun v => (nonempty registerMapNameMax v).filter fun s =>
      assetNameValid s jsExtension && p.registerMap != []) [] = some p.view :=
    optional_text hview fun h hne => by
      rw [nonempty_shows h hviewText hviewLength hne, Option.filter_some, if_pos]
      simpa [hp.view] using hp.mapped hne
  rw [assets, hfirst]
  simp only [Option.bind_eq_bind, Option.bind_some]
  rw [hsecond, Option.bind_some]

theorem transport_shows {mdio : Bool} {address : ℕ} (haddress : address ≤ (addressMax mdio).toNat) (hn : n ≤ depthMax - 1)
    (h : Shows (n + 1) (some (transportTree mdio address)) v) : transport mdio v = .ok address := by
  obtain ⟨f,hf,hall⟩ := fields_objectOf tables.transport hn (by simp [transportKeys]) (by simp) h
  have hbus : Shows n (some (str (busName mdio))) (f "bus") := by simpa [List.lookup_cons] using hall "bus"
  have hcontroller : Shows n (some (str (controller mdio))) (f "controller") := by
    simpa [List.lookup_cons] using hall "controller"
  have haddr : Shows n (some (hexTree 2 address)) (f "address") := by simpa [List.lookup_cons] using hall "address"
  have hbits : Shows n (if mdio = true then none else some (num 7)) (f "address_bits") := by
    simpa [List.lookup_cons] using hall "address_bits"
  have hequal : equal (f "bus") (busName mdio) = true ∧ equal (f "controller") (controller mdio) = true := by
    cases mdio with
    | true => exact ⟨by rw [hbus.equal (by decide) (by decide), beq_self_eq_true],by rw [hcontroller.equal (by decide) (by decide), beq_self_eq_true]⟩
    | false => exact ⟨by rw [hbus.equal (by decide) (by decide), beq_self_eq_true],by rw [hcontroller.equal (by decide) (by decide), beq_self_eq_true]⟩
  have hsmall : address < 16 ^ 2 := by
    cases mdio with
    | true => exact lt_of_le_of_lt haddress (by decide)
    | false => exact lt_of_le_of_lt haddress (by decide)
  rw [transport, hf, need_some, ok_bind, check_of hequal, ok_bind, haddr.hex (by decide) (by decide) hsmall haddress, need_some,
    ok_bind]
  cases mdio with
  | true =>
    rw [if_pos rfl, check_of (shows_none hbits)]
    rfl
  | false =>
    have hseven : optional (f "address_bits") (number 7) 7 = some 7 := by
      have hsome : Shows n (some (num 7)) (f "address_bits") := hbits
      rw [optional_shows hsome, hsome.number (by decide)]
    rw [if_neg (by decide), check_of hseven]
    rfl

theorem protocol_shows {mdio : Bool} {p : DeviceProfile} {ids : ℕ → Name} (hn : n + 1 ≤ depthMax - 1)
    (h : Shows (n + 2) (some (protocolTree mdio p ids)) v) :
    ∃ o, Shows (n + 1) (some (optionsTree mdio p ids)) o ∧ protocol mdio v = need .malformed (fields optionKeys o) := by
  obtain ⟨f,hf,hall⟩ := fields_objectOf tables.protocol hn (by simp [protocolKeys]) (by simp) h
  have hdriver : Shows (n + 1) (some (str (driver mdio))) (f "driver") := by simpa [List.lookup_cons] using hall "driver"
  have hoptions : Shows (n + 1) (some (optionsTree mdio p ids)) (f "options") := by simpa [List.lookup_cons] using hall "options"
  have hequal : equal (f "driver") (driver mdio) = true := by
    cases mdio with
    | true => rw [hdriver.equal (by decide) (by decide), beq_self_eq_true]
    | false => rw [hdriver.equal (by decide) (by decide), beq_self_eq_true]
  refine ⟨f "options",hoptions,?_⟩
  rw [protocol, hf, need_some, ok_bind, check_of hequal, ok_bind, optional_shows hoptions]

/-- The options of a PHY. -/
theorem mdioOptions_shows {p : DeviceProfile} {ids : ℕ → Name} (hp : OptionsOk true p) (hn : n ≤ depthMax - 1)
    (h : Shows (n + 1) (some (optionsTree true p ids)) v) :
    ∃ o, fields optionKeys v = some o ∧
      mdioOptions o = .ok ⟨p.maxValueCode,p.autopollEnabled,p.autopollRegDelayMs,p.autopollCycleDelayMs⟩ ∧
      Shows n (some (.array (p.autopollRegs.map fun r => .string (ids r)))) (o "autopoll_order") := by
  obtain ⟨hzero,-,-,-,hreg,hcycle⟩ := hp
  obtain ⟨f,hf,hall⟩ := fields_objectOf tables.option hn (by simp [optionKeys]) (by simp) h
  have hcode : Shows n none (f "max_write_value") := by simpa [List.lookup_cons] using hall "max_write_value"
  have hcapture : Shows n none (f "capture_cache_on_save") := by simpa [List.lookup_cons] using hall "capture_cache_on_save"
  have henabled : Shows n (some (boolTree p.autopollEnabled)) (f "autopoll_enabled") := by
    simpa [List.lookup_cons] using hall "autopoll_enabled"
  have hregDelay : Shows n (some (num p.autopollRegDelayMs)) (f "autopoll_reg_delay_ms") := by
    simpa [List.lookup_cons] using hall "autopoll_reg_delay_ms"
  have hcycleDelay : Shows n (some (num p.autopollCycleDelayMs)) (f "autopoll_cycle_delay_ms") := by
    simpa [List.lookup_cons] using hall "autopoll_cycle_delay_ms"
  have hregRead : number 60000 (f "autopoll_reg_delay_ms") = some p.autopollRegDelayMs := hregDelay.number hreg
  have hcycleRead : number 600000 (f "autopoll_cycle_delay_ms") = some p.autopollCycleDelayMs := hcycleDelay.number hcycle
  refine ⟨f,hf,?_,by simpa [List.lookup_cons] using hall "autopoll_order"⟩
  rw [mdioOptions, check_of ⟨shows_none hcode,shows_none hcapture⟩, ok_bind, optional_shows henabled, henabled.boolean,
    need_some, ok_bind, optional_shows hregDelay, hregRead, need_some, ok_bind, optional_shows hcycleDelay, hcycleRead,
    need_some, ok_bind, hzero]

/-- The options of an I2C device. -/
theorem i2cOptions_shows {p : DeviceProfile} {ids : ℕ → Name} (hp : OptionsOk false p) (hn : n ≤ depthMax - 1)
    (h : Shows (n + 1) (some (optionsTree false p ids)) v) :
    ∃ o, fields optionKeys v = some o ∧
      i2cOptions o = .ok ⟨p.maxValueCode,p.autopollEnabled,p.autopollRegDelayMs,p.autopollCycleDelayMs⟩ := by
  obtain ⟨hcode,henabled,-,hreg,hcycle⟩ := hp
  obtain ⟨f,hf,hall⟩ := fields_objectOf tables.option hn (by simp [optionKeys]) (by simp) h
  have hvalue : Shows n (some (hexTree 2 p.maxValueCode)) (f "max_write_value") := by
    simpa [List.lookup_cons] using hall "max_write_value"
  have hcapture : Shows n (some (boolTree true)) (f "capture_cache_on_save") := by
    simpa [List.lookup_cons] using hall "capture_cache_on_save"
  have hothers : ∀ k ∈ ["autopoll_enabled","autopoll_order","autopoll_reg_delay_ms","autopoll_cycle_delay_ms"], f k = none := by
    intro k hk
    have hnone : Shows n none (f k) := by
      simp only [List.mem_cons, List.not_mem_nil, or_false] at hk
      rcases hk with rfl | rfl | rfl | rfl
      · simpa [List.lookup_cons] using hall "autopoll_enabled"
      · simpa [List.lookup_cons] using hall "autopoll_order"
      · simpa [List.lookup_cons] using hall "autopoll_reg_delay_ms"
      · simpa [List.lookup_cons] using hall "autopoll_cycle_delay_ms"
    exact shows_none hnone
  have hflag : optional (f "capture_cache_on_save") boolean true = some true := by
    rw [optional_shows hcapture, hcapture.boolean]
  have hread : hex 64 (f "max_write_value") = some p.maxValueCode :=
    hvalue.hex (by decide) (by decide) (lt_of_le_of_lt hcode (by decide)) hcode
  refine ⟨f,hf,?_⟩
  rw [i2cOptions, hread, need_some, ok_bind, check_of hflag, ok_bind, check_of hothers, ok_bind, henabled, hreg, hcycle]

theorem driverMode_shows (hn : n ≤ depthMax - 1) (h : Shows (n + 1) (some (modeTree "driver")) v) : driverMode v = true := by
  obtain ⟨f,hf,hall⟩ := fields_objectOf tables.mode hn (by simp [modeKeys]) (by simp) h
  have hmode : Shows n (some (str "driver")) (f "mode") := by simpa [List.lookup_cons] using hall "mode"
  rw [driverMode, hf, Option.any_some, hmode.equal (by decide) (by decide), beq_self_eq_true]

/-- The defaults make up for what the registers do not say. -/
theorem defaultsOf_shows {mdio : Bool} (hn : n + 2 ≤ depthMax - 1) (h : Shows (n + 3) (some (defaultsTree mdio)) v) :
    ∃ d, defaultsOf v = .ok d ∧ ∀ f : Views, (∀ k ∈ resourceKeys.drop 3, f k = none) →
      resourceSupported mdio (fun key => (f key).or (d key)) = true := by
  obtain ⟨f,hf,hall⟩ := fields_objectOf tables.defaults hn (by simp [defaultsKeys]) (by simp) h
  have hregister : Shows (n + 2) (some (registerTree mdio)) (f "register") := by simpa [List.lookup_cons] using hall "register"
  obtain ⟨d,hd,hall⟩ := fields_objectOf tables.resource (Nat.le_of_succ_le hn) (by simp [resourceKeys]) (by simp) hregister
  have hwidth : Shows (n + 1) (some (num (width mdio))) (d "width_bits") := by simpa [List.lookup_cons] using hall "width_bits"
  have haccess : Shows (n + 1) (some (str "rw")) (d "access") := by simpa [List.lookup_cons] using hall "access"
  have hmask : Shows (n + 1) (some (hexTree (width mdio / 4) (maximum mdio).toNat)) (d "write_mask") := by
    simpa [List.lookup_cons] using hall "write_mask"
  have hcache : Shows (n + 1) (some (modeTree "driver")) (d "cache") := by simpa [List.lookup_cons] using hall "cache"
  have hverify : Shows (n + 1) (some (modeTree "driver")) (d "verify") := by simpa [List.lookup_cons] using hall "verify"
  have hmissing : ∀ k ∈ ["id","kind","address","refresh","persist_mask","read_effect","write_effect","fields"], d k = none := by
    intro k hk
    have hnone : Shows (n + 1) none (d k) := by
      simp only [List.mem_cons, List.not_mem_nil, or_false] at hk
      rcases hk with rfl | rfl | rfl | rfl | rfl | rfl | rfl | rfl
      · simpa [List.lookup_cons] using hall "id"
      · simpa [List.lookup_cons] using hall "kind"
      · simpa [List.lookup_cons] using hall "address"
      · simpa [List.lookup_cons] using hall "refresh"
      · simpa [List.lookup_cons] using hall "persist_mask"
      · simpa [List.lookup_cons] using hall "read_effect"
      · simpa [List.lookup_cons] using hall "write_effect"
      · simpa [List.lookup_cons] using hall "fields"
    exact shows_none hnone
  refine ⟨d,?_,fun g hg => ?_⟩
  · obtain ⟨view,rfl,-⟩ := h.isSome
    have hcommon : d "id" = none ∧ d "kind" = none ∧ d "address" = none :=
      ⟨hmissing _ (by simp),hmissing _ (by simp),hmissing _ (by simp)⟩
    rw [defaultsOf, hf, need_some, ok_bind, optional_shows hregister, hd, need_some, ok_bind, check_of hcommon]
    rfl
  · have hor : ∀ k ∈ resourceKeys.drop 3, (g k).or (d k) = d k := fun k hk => by rw [hg k hk, Option.none_or]
    have hwidthRead : number (UInt32.ofNat (width mdio)) (d "width_bits") = some (width mdio) := by
      cases mdio with
      | true => exact hwidth.number (by decide)
      | false => exact hwidth.number (by decide)
    have hmaskRead : hex (maximum mdio) (d "write_mask") = some (maximum mdio).toNat := by
      cases mdio with
      | true => exact hmask.hex (by decide) (by decide) (by decide) (by decide)
      | false => exact hmask.hex (by decide) (by decide) (by decide) (by decide)
    have haccessRead : equal (d "access") "rw" = true := by rw [haccess.equal (by decide) (by decide), beq_self_eq_true]
    have hdepth : n ≤ depthMax - 1 := by omega
    rw [resourceSupported, hor _ (by decide), hor _ (by decide), hor _ (by decide), hor _ (by decide), hor _ (by decide),
      hor _ (by decide), hor _ (by decide), hor _ (by decide), hor _ (by decide), hor _ (by decide), hwidthRead, haccessRead,
      hmaskRead, driverMode_shows hdepth hcache, driverMode_shows hdepth hverify, hmissing "refresh" (by simp),
      hmissing "persist_mask" (by simp), hmissing "read_effect" (by simp), hmissing "write_effect" (by simp),
      hmissing "fields" (by simp)]
    simp [noRefresh, zeroEffect, emptyArray_none]

/-! ## Registers -/

/-- What is known behind the first registers. -/
def scanAt (ids : ℕ → Name) (count : ℕ) : ResourceScan :=
  ⟨fun k => decide (k < count),count,layout ids count,offsets ids count⟩

theorem range_split {count x : ℕ} {front back : List ℕ} (h : List.range count = front ++ x :: back) :
    x = front.length ∧ x < count := by
  have hmem : x ∈ List.range count := by rw [h]; simp
  have hget := congrArg (fun xs => xs[front.length]?) h
  rw [List.getElem?_append_right (Nat.le_refl _), Nat.sub_self, List.getElem?_cons_zero] at hget
  have hlt := (List.getElem?_eq_some_iff.mp hget).1
  rw [List.getElem?_range (by simpa using hlt)] at hget
  exact ⟨(Option.some.inj hget).symm,List.mem_range.mp hmem⟩

theorem layout_length_mono (ids : ℕ → Name) {i j : ℕ} (h : i ≤ j) : (layout ids i).length ≤ (layout ids j).length := by
  induction h with
  | refl => exact Nat.le_refl _
  | step _ ih =>
    rw [layout_succ]
    simp only [List.length_append]
    omega

theorem scanAt_succ (ids : ℕ → Name) (i : ℕ) :
    (⟨Function.update (scanAt ids i).seen i true,i + 1,layout ids i ++ ids i ++ [0],
      Function.update (offsets ids i) i (layout ids i).length⟩ : ResourceScan) = scanAt ids (i + 1) := by
  have hseen : Function.update (scanAt ids i).seen i true = fun k => decide (k < i + 1) := by
    funext k
    by_cases hk : k = i
    · rw [hk, Function.update_self]
      simp
    · have hiff : k < i + 1 ↔ k < i := by omega
      rw [Function.update_of_ne hk]
      simp only [scanAt, hiff]
  rw [hseen, ← offsets_succ, ← layout_succ]
  rfl

/-- One register behind those in front of it. -/
theorem resource_shows {mdio : Bool} {ids : ℕ → Name} {count i : ℕ} (hids : IdsOk ids count) (hi : i < count)
    (hcount : count ≤ registersMax mdio) (hn : n ≤ depthMax - 1) {d : Views}
    (hd : ∀ f : Views, (∀ k ∈ resourceKeys.drop 3, f k = none) →
      resourceSupported mdio (fun key => (f key).or (d key)) = true) {entry : Bytes}
    (h : Means Denoting (n + 1) (resourceTree ids i) entry) :
    resource mdio d (scanAt ids i) entry = .ok (scanAt ids (i + 1)) := by
  obtain ⟨f,hf,hall⟩ := fields_objectOf tables.resource hn (by simp [resourceKeys]) (by simp) (Option.Rel.some h)
  have hid : Shows n (some (.string (ids i))) (f "id") := by simpa [List.lookup_cons] using hall "id"
  have hkind : Shows n (some (str "register")) (f "kind") := by simpa [List.lookup_cons] using hall "kind"
  have haddress : Shows n (some (hexTree 2 i)) (f "address") := by simpa [List.lookup_cons] using hall "address"
  have hothers : ∀ k ∈ resourceKeys.drop 3, f k = none := by
    intro k hk
    have hnone : Shows n none (f k) := by
      have hkey := hall k
      have hlookup : List.lookup k [("id",some (Tree.string (ids i))),("kind",some (str "register")),("address",some (hexTree 2 i))] = none := by
        simp only [resourceKeys, List.drop, List.mem_cons, List.not_mem_nil, or_false] at hk
        rcases hk with rfl | rfl | rfl | rfl | rfl | rfl | rfl | rfl | rfl | rfl
        all_goals rfl
      rwa [hlookup] at hkey
    exact shows_none hnone
  obtain ⟨-,hlength,hprintable,hnul⟩ := idValid_plain (hids.valid i hi)
  have hidRead : (text 32 (f "id")).filter (idValid ·) = some (ids i) := by
    rw [hid.text hprintable hlength, Option.filter_some, if_pos (hids.valid i hi)]
  have hkindRead : equal (f "kind") "register" = true := by rw [hkind.equal (by decide) (by decide), beq_self_eq_true]
  have haddressRead : hex (registerMax mdio) (f "address") = some i := by
    cases mdio with
    | true =>
      have hlt : i < 32 := lt_of_lt_of_le hi hcount
      have hle : i ≤ (registerMax true).toNat := Nat.le_of_lt_succ hlt
      exact haddress.hex (by decide) (by decide) (hlt.trans (by decide)) hle
    | false =>
      have hlt : i < 256 := lt_of_lt_of_le hi hcount
      have hle : i ≤ (registerMax false).toNat := Nat.le_of_lt_succ hlt
      exact haddress.hex (by decide) (by decide) hlt hle
  have hfree : (scanAt ids i).seen i = false ∧ (scanAt ids i).count < registersMax mdio :=
    ⟨decide_eq_false (Nat.lt_irrefl i),lt_of_lt_of_le hi hcount⟩
  have hnew : ((List.range 256).any fun k => (scanAt ids i).seen k &&
      textAt (scanAt ids i).ids ((scanAt ids i).idOffset k) == ids i) = false := by
    rw [List.any_eq_false]
    intro k _ hk
    rw [Bool.and_eq_true, beq_iff_eq] at hk
    have hlt : k < i := of_decide_eq_true hk.1
    have htext : textAt (layout ids i) (offsets ids i k) = ids k :=
      textAt_layout hlt (idValid_plain (hids.valid k (hlt.trans hi))).2.2.2
    have hsame := hids.distinct k (hlt.trans hi) i hi (htext.symm.trans hk.2)
    omega
  have hroom : (ids i).length + 1 ≤ profileIdsCap - (scanAt ids i).ids.length := by
    have hmono := layout_length_mono ids (Nat.succ_le_of_lt hi)
    have hsize := hids.size
    rw [layout_succ] at hmono
    simp only [List.length_append, List.length_singleton] at hmono
    change (ids i).length + 1 ≤ profileIdsCap - (layout ids i).length
    omega
  rw [resource, hf, need_some, ok_bind, hidRead, need_some, ok_bind, check_of hkindRead, ok_bind, haddressRead, need_some,
    ok_bind, check_of hfree, ok_bind, check_of hnew, ok_bind, check_of hroom, ok_bind, check_of (hd f hothers), ok_bind]
  exact congrArg Except.ok (scanAt_succ ids i)

theorem resources_shows {mdio : Bool} {ids : ℕ → Name} {count : ℕ} (hids : IdsOk ids count) (hpos : 0 < count)
    (hcount : count ≤ registersMax mdio) (hn : n + 1 ≤ depthMax - 1) {d : Views}
    (hd : ∀ f : Views, (∀ k ∈ resourceKeys.drop 3, f k = none) →
      resourceSupported mdio (fun key => (f key).or (d key)) = true)
    (h : Shows (n + 2) (some (.array ((List.range count).map (resourceTree ids)))) v) :
    resources mdio d v = .ok (scanAt ids count) := by
  have hitems : items (resource mdio d) v (scanAt ids 0) = .ok (scanAt ids (List.range count).length) := by
    refine items_array (fun front : List ℕ => scanAt ids front.length) hn (fun front i back hsplit entry hentry => ?_) h
    obtain ⟨rfl,hi⟩ := range_split hsplit
    rw [List.length_append, List.length_singleton]
    exact resource_shows hids hi hcount (Nat.le_of_succ_le hn) hd hentry
  rw [List.length_range] at hitems
  have hstart : (⟨fun _ => false,0,[0],fun _ => 0⟩ : ResourceScan) = scanAt ids 0 := by
    simp [scanAt, layout]
    rfl
  have hall : ((List.range (scanAt ids count).count).all (scanAt ids count).seen) = true := by
    simp [scanAt]
  have hsome : (scanAt ids count).count ≠ 0 := Nat.ne_zero_of_lt hpos
  rw [resources, hstart, hitems, ok_bind, check_of hsome, ok_bind, check_of hall, ok_bind]

theorem lookup_shows {ids : ℕ → Name} {count i : ℕ} (hids : IdsOk ids count) (hi : i < count)
    (h : Shows n (some (.string (ids i))) v) : lookup (scanAt ids count) v = some i := by
  obtain ⟨-,hlength,hprintable,-⟩ := idValid_plain (hids.valid i hi)
  have htext : ∀ k < count, textAt (layout ids count) (offsets ids count k) = ids k := fun k hk =>
    textAt_layout hk (idValid_plain (hids.valid k hk)).2.2.2
  rw [lookup, h.text hprintable hlength, Option.bind_some, List.find?_range_eq_some]
  refine ⟨?_,List.mem_range.mpr hi,fun k hk => ?_⟩
  · exact beq_iff_eq.mpr (htext i hi)
  · have hk' : k < count := hk.trans hi
    have hne : ids k ≠ ids i := fun heq => Nat.ne_of_lt hk (hids.distinct k hk' i hi heq)
    simpa [scanAt, htext k hk'] using hne

theorem autopoll_shows {ids : ℕ → Name} {count : ℕ} (hids : IdsOk ids count) {regs : List ℕ} (hnodup : regs.Nodup)
    (hregs : ∀ r ∈ regs, r < count) (hlength : regs.length ≤ mdioAutopollRegsMax) (hn : n ≤ depthMax - 1)
    (h : Shows (n + 1) (some (.array (regs.map fun r => .string (ids r)))) v) :
    items (autopollReg (scanAt ids count)) v [] = .ok regs := by
  refine items_array (fun front : List ℕ => front) hn (fun front r back hsplit entry hentry => ?_) h
  subst hsplit
  have hlookup : lookup (scanAt ids count) (some entry) = some r :=
    lookup_shows hids (hregs r (by simp)) (Option.Rel.some hentry)
  have hnew : r ∉ front ∧ front.length < mdioAutopollRegsMax := by
    simp only [List.length_append, List.length_cons] at hlength
    refine ⟨fun hmem => ?_,by omega⟩
    exact (List.nodup_append.mp hnodup).2.2 r hmem r List.mem_cons_self rfl
  rw [autopollReg, hlookup, need_some, ok_bind, check_of hnew, ok_bind]

/-! ## Rules and settings -/

theorem maximum_digits {mdio : Bool} {k : ℕ} (h : k ≤ (maximum mdio).toNat) : k < 16 ^ (width mdio / 4) := by
  cases mdio with
  | true => exact lt_of_le_of_lt h (by decide)
  | false => exact lt_of_le_of_lt h (by decide)

theorem value_shows {mdio : Bool} {k : ℕ} (hk : k ≤ (maximum mdio).toNat)
    (h : Shows n (some (hexTree (width mdio / 4) k)) v) : hex (maximum mdio) v = some k := by
  refine h.hex ?_ ?_ (maximum_digits hk) hk
  · cases mdio with
    | true => decide
    | false => decide
  · cases mdio with
    | true => decide
    | false => decide

theorem rule_shows {mdio : Bool} {ids : ℕ → Name} {count maxValueCode : ℕ} (hids : IdsOk ids count) {rules : List PolicyRule}
    {r : PolicyRule} (hr : RuleOk mdio count maxValueCode r) (hlength : rules.length < rulesMax mdio)
    (hn : n + 1 ≤ depthMax - 1) {entry : Bytes} (h : Means Denoting (n + 2) (ruleTree mdio ids r) entry) :
    rule mdio (scanAt ids count) maxValueCode rules entry = .ok (rules ++ [r]) := by
  obtain ⟨f,hf,hall⟩ := fields_objectOf tables.rule hn (by simp [ruleKeys]) (by simp) (Option.Rel.some h)
  have hresource : Shows (n + 1) (some (.string (ids r.reg))) (f "resource") := by
    simpa [List.lookup_cons] using hall "resource"
  have hmatch : Shows (n + 1) (some (objectOf [("value",some (hexTree (width mdio / 4) r.val)),
      ("mask",some (hexTree (width mdio / 4) r.mask))])) (f "match") := by
    simpa [List.lookup_cons] using hall "match"
  obtain ⟨g,hg,hall⟩ := fields_objectOf tables.matching (Nat.le_of_succ_le hn) (by simp [matchKeys]) (by simp) hmatch
  have hvalue : Shows n (some (hexTree (width mdio / 4) r.val)) (g "value") := by simpa [List.lookup_cons] using hall "value"
  have hmask : Shows n (some (hexTree (width mdio / 4) r.mask)) (g "mask") := by simpa [List.lookup_cons] using hall "mask"
  have hsome : ¬(g "value" = none ∧ g "mask" = none) := by
    obtain ⟨view,hview,-⟩ := hvalue.isSome
    rintro ⟨hnone,-⟩
    rw [hview] at hnone
    cases hnone
  have hread : matchOf mdio (f "match") = some (r.val,r.mask) := by
    rw [matchOf, optional_shows hmatch, hg]
    simp only [Option.bind_eq_bind, Option.bind_some]
    rw [if_neg hsome, value_shows hr.val hvalue, Option.bind_some, value_shows hr.mask hmask, Option.bind_some]
  have hkind : (mdio = true ∨ r.mask = 255) ∧ (mdio = true ∨ r.val ≤ maxValueCode) := by
    rcases hr.kind with hmdio | ⟨hmask,hval⟩
    · exact ⟨Or.inl hmdio,Or.inl hmdio⟩
    · exact ⟨Or.inr hmask,Or.inr hval⟩
  rw [rule, check_of hlength, ok_bind, hf, need_some, ok_bind, lookup_shows hids hr.reg hresource, need_some, ok_bind, hread,
    need_some, ok_bind]
  dsimp only
  rw [check_of hkind.1, ok_bind, check_of hkind.2, ok_bind]

theorem rules_shows {mdio : Bool} {ids : ℕ → Name} {count maxValueCode : ℕ} (hids : IdsOk ids count) {rules : List PolicyRule}
    (hrules : rules.length ≤ rulesMax mdio ∧ ∀ r ∈ rules, RuleOk mdio count maxValueCode r) (hn : n + 2 ≤ depthMax - 1)
    (h : Shows (n + 3) (some (.array (rules.map (ruleTree mdio ids)))) v) :
    items (rule mdio (scanAt ids count) maxValueCode) v [] = .ok rules := by
  refine items_array (fun front : List PolicyRule => front) hn (fun front r back hsplit entry hentry => ?_) h
  obtain ⟨hlength,hrules⟩ := hrules
  rw [hsplit] at hlength hrules
  simp only [List.length_append, List.length_cons] at hlength
  exact rule_shows hids (hrules r (by simp)) (by omega) (Nat.le_of_succ_le hn) hentry

theorem policyMode_shows {mode : PolicyMode} (h : Shows n (some (str (modeName mode))) v) : policyMode v = some mode := by
  cases mode with
  | whitelist =>
    have hblack : equal v "blacklist" = false := by
      rw [Shows.equal h (by decide) (by decide)]
      decide
    have hwhite : equal v "whitelist" = true := by rw [Shows.equal h (by decide) (by decide), modeName, beq_self_eq_true]
    rw [policyMode, hblack, if_neg (by decide), if_pos hwhite]
  | blacklist =>
    have hblack : equal v "blacklist" = true := by rw [Shows.equal h (by decide) (by decide), modeName, beq_self_eq_true]
    rw [policyMode, if_pos hblack]

theorem writePolicy_shows {mdio : Bool} {p : DeviceProfile} {ids : ℕ → Name} (hn : n ≤ depthMax - 1)
    (h : Shows (n + 1) (some (writeTree mdio p ids)) v) :
    ∃ white black, writePolicy v = some (p.policy,white,black) ∧
      Shows n (some (.array (p.whitelist.map (ruleTree mdio ids)))) white ∧
      Shows n (some (.array (p.blacklist.map (ruleTree mdio ids)))) black := by
  obtain ⟨f,hf,hall⟩ := fields_objectOf tables.policyEntry hn (by simp [policyEntryKeys]) (by simp) h
  have hmode : Shows n (some (str (modeName p.policy))) (f "mode") := by simpa [List.lookup_cons] using hall "mode"
  have hactive : Shows n (some (.array ((DeviceProfile.active p).map (ruleTree mdio ids)))) (f "rules") := by
    simpa [List.lookup_cons] using hall "rules"
  have hinactive : Shows n (some (.array ((DeviceProfile.inactive p).map (ruleTree mdio ids)))) (f "inactive_rules") := by
    simpa [List.lookup_cons] using hall "inactive_rules"
  have hread := policyMode_shows hmode
  rw [writePolicy, optional_shows h, hf]
  simp only [Option.bind_eq_bind, Option.bind_some]
  rw [hread, Option.bind_some]
  cases hpolicy : p.policy with
  | whitelist =>
    simp only [DeviceProfile.active, DeviceProfile.inactive, hpolicy] at hactive hinactive
    exact ⟨_,_,rfl,hactive,hinactive⟩
  | blacklist =>
    simp only [DeviceProfile.active, DeviceProfile.inactive, hpolicy] at hactive hinactive
    exact ⟨_,_,rfl,hinactive,hactive⟩

theorem policy_shows {mdio : Bool} {p : DeviceProfile} {ids : ℕ → Name} (hp : Canonical mdio p ids) (hn : n + 4 ≤ depthMax - 1)
    (h : Shows (n + 5) (some (policyTree mdio p ids)) v) :
    policy mdio (scanAt ids p.regCount) p.maxValueCode v = .ok (p.policy,p.whitelist,p.blacklist) := by
  obtain ⟨f,hf,hall⟩ := fields_objectOf tables.policy hn (by simp [policyKeys]) (by simp) h
  have hread : Shows (n + 4) (some readTree) (f "read") := by simpa [List.lookup_cons] using hall "read"
  have hwrite : Shows (n + 4) (some (writeTree mdio p ids)) (f "write") := by simpa [List.lookup_cons] using hall "write"
  obtain ⟨g,hg,hall⟩ := fields_objectOf tables.policyEntry (Nat.le_of_succ_le hn) (by simp [policyEntryKeys]) (by simp) hread
  have hmode : Shows (n + 3) (some (str "blacklist")) (g "mode") := by simpa [List.lookup_cons] using hall "mode"
  have hrules : Shows (n + 3) (some (.array [])) (g "rules") := by simpa [List.lookup_cons] using hall "rules"
  have hinactive : Shows (n + 3) none (g "inactive_rules") := by simpa [List.lookup_cons] using hall "inactive_rules"
  have hopen : equal (g "mode") "blacklist" = true ∧ emptyArray (g "rules") = true ∧ emptyArray (g "inactive_rules") = true := by
    refine ⟨by rw [hmode.equal (by decide) (by decide), beq_self_eq_true],emptyArray_shows hrules,?_⟩
    rw [shows_none hinactive, emptyArray_none]
  obtain ⟨white,black,hpolicy,hwhite,hblack⟩ := writePolicy_shows (by omega) hwrite
  rw [policy, hf, need_some, ok_bind, hg, need_some, ok_bind, check_of hopen, ok_bind, hpolicy, need_some, ok_bind]
  dsimp only
  rw [rules_shows hp.identifiers hp.whitelist (by omega) hwhite, ok_bind,
    rules_shows hp.identifiers hp.blacklist (by omega) hblack, ok_bind]

theorem seed_shows {mdio : Bool} {ids : ℕ → Name} {count : ℕ} (hids : IdsOk ids count) {seeds : List Seed} {s : Seed}
    (hs : s.reg < count ∧ s.val ≤ (maximum mdio).toNat) (hlength : seeds.length < settingsMax mdio)
    (hnew : ∀ x ∈ seeds, x.reg ≠ s.reg) (hn : n ≤ depthMax - 1) {entry : Bytes}
    (h : Means Denoting (n + 1) (seedTree mdio ids s) entry) :
    seed mdio (scanAt ids count) seeds entry = .ok (seeds ++ [s]) := by
  obtain ⟨f,hf,hall⟩ := fields_objectOf tables.seed hn (by simp [seedKeys]) (by simp) (Option.Rel.some h)
  have hresource : Shows n (some (.string (ids s.reg))) (f "resource") := by simpa [List.lookup_cons] using hall "resource"
  have hvalue : Shows n (some (hexTree (width mdio / 4) s.val)) (f "value") := by simpa [List.lookup_cons] using hall "value"
  rw [seed, check_of hlength, ok_bind, hf, need_some, ok_bind, lookup_shows hids hs.1 hresource, need_some, ok_bind,
    check_of hnew, ok_bind, value_shows hs.2 hvalue, need_some, ok_bind]

theorem settings_shows {mdio : Bool} {p : DeviceProfile} {ids : ℕ → Name} (hp : Canonical mdio p ids) (hn : n + 2 ≤ depthMax - 1)
    (h : Shows (n + 3) (some (settingsTree mdio p ids)) v) :
    settings mdio (scanAt ids p.regCount) v = .ok p.settings := by
  obtain ⟨f,hf,hall⟩ := fields_objectOf tables.settings hn (by simp [settingsKeys]) (by simp) h
  have hdesired : Shows (n + 2) (some (.array [])) (f "desired") := by simpa [List.lookup_cons] using hall "desired"
  have happly : Shows (n + 2) (some (boolTree false)) (f "apply_on_startup") := by
    simpa [List.lookup_cons] using hall "apply_on_startup"
  have hseeds : Shows (n + 2) (some (.array (p.settings.map (seedTree mdio ids)))) (f "cache_seed") := by
    simpa [List.lookup_cons] using hall "cache_seed"
  obtain ⟨hlength,hnodup,hvalues⟩ := hp.settings
  have hitems : items (seed mdio (scanAt ids p.regCount)) (f "cache_seed") [] = .ok p.settings := by
    refine items_array (fun front : List Seed => front) (Nat.le_of_succ_le hn) (fun front s back hsplit entry hentry => ?_) hseeds
    rw [hsplit] at hlength hnodup hvalues
    simp only [List.length_append, List.length_cons] at hlength
    refine seed_shows hp.identifiers (hvalues s (by simp)) (by omega) (fun x hx heq => ?_) (by omega) hentry
    rw [List.map_append, List.map_cons] at hnodup
    exact (List.nodup_append.mp hnodup).2.2 x.reg (List.mem_map_of_mem hx) s.reg List.mem_cons_self heq
  have hoff : emptyArray (f "desired") = true ∧ optional (f "apply_on_startup") boolean false = some false :=
    ⟨emptyArray_shows hdesired,by rw [optional_shows happly, Shows.boolean happly]⟩
  obtain ⟨view,rfl,-⟩ := h.isSome
  rw [settings, hf, need_some, ok_bind, check_of hoff, ok_bind, hitems]

theorem observability_shows (hn : n ≤ depthMax - 1) (h : Shows (n + 1) (some observabilityTree) v) : observability v = .ok () := by
  obtain ⟨f,hf,hall⟩ := fields_objectOf tables.observe hn (by simp [observeKeys]) (by simp) h
  have htelemetry : Shows n (some (boolTree true)) (f "telemetry") := by simpa [List.lookup_cons] using hall "telemetry"
  have hevents : Shows n (some (boolTree true)) (f "events") := by simpa [List.lookup_cons] using hall "events"
  have hon : optional (f "telemetry") boolean true = some true ∧ optional (f "events") boolean true = some true :=
    ⟨by rw [optional_shows htelemetry, Shows.boolean htelemetry],by rw [optional_shows hevents, Shows.boolean hevents]⟩
  obtain ⟨view,rfl,-⟩ := h.isSome
  rw [observability, hf, need_some, ok_bind, check_of hon]

end

/-! ## The whole document -/

/-- A text that means the document of a profile is read as this profile. -/
theorem parse_document {mdio : Bool} {p : DeviceProfile} {ids : ℕ → Name} (hp : Canonical mdio p ids) {json : Bytes}
    (h : Shows depthMax (some (documentTree mdio p ids)) (document json)) : parse mdio json = .ok p := by
  have hroot : Shows (15 + 1) (some (documentTree mdio p ids)) (document json) := h
  obtain ⟨r,hr,hall⟩ := fields_objectOf tables.root (by decide) (by simp [documentFields, rootKeys]) (by simp [documentFields]) hroot
  have hversion : Shows 15 (some (num 2)) (r "schema_version") := by simpa [documentFields, List.lookup_cons] using hall "schema_version"
  have hname : Shows 15 (some (.string p.name)) (r "id") := by simpa [documentFields, List.lookup_cons] using hall "id"
  have hmap : Shows 15 (unlessEmpty p.profile.registerMap) (r "register_map") := by
    simpa [documentFields, List.lookup_cons] using hall "register_map"
  have hview : Shows 15 (unlessEmpty p.profile.view) (r "view") := by simpa [documentFields, List.lookup_cons] using hall "view"
  have hdevice : Shows 15 (some (deviceTree p.profile)) (r "device") := by simpa [documentFields, List.lookup_cons] using hall "device"
  have htransport : Shows 15 (some (transportTree mdio p.address)) (r "transport") := by
    simpa [documentFields, List.lookup_cons] using hall "transport"
  have hprotocol : Shows 15 (some (protocolTree mdio p ids)) (r "protocol") := by simpa [documentFields, List.lookup_cons] using hall "protocol"
  have hdefaults : Shows 15 (some (defaultsTree mdio)) (r "defaults") := by simpa [documentFields, List.lookup_cons] using hall "defaults"
  have hresources : Shows 15 (some (.array ((List.range p.regCount).map (resourceTree ids)))) (r "resources") := by
    simpa [documentFields, List.lookup_cons] using hall "resources"
  have hpolicy : Shows 15 (some (policyTree mdio p ids)) (r "policy") := by simpa [documentFields, List.lookup_cons] using hall "policy"
  have hsettings : Shows 15 (some (settingsTree mdio p ids)) (r "settings") := by simpa [documentFields, List.lookup_cons] using hall "settings"
  have hobserve : Shows 15 (some observabilityTree) (r "observability") := by simpa [documentFields, List.lookup_cons] using hall "observability"
  have hversionRead : number 2 (r "schema_version") = some 2 := Shows.number hversion (by decide)
  obtain ⟨-,hlength,hprintable,-⟩ := idValid_plain hp.name
  have hnameText : text i2cNameMax (r "id") = some p.name := hname.text hprintable hlength
  have hnameRead : (text i2cNameMax (r "id")).filter (idValid ·) = some p.name := by
    rw [hnameText, Option.filter_some, if_pos hp.name]
  obtain ⟨o,hoptions,hprotocolRead⟩ := protocol_shows (by decide) hprotocol
  obtain ⟨d,hdefaultsRead,hd⟩ := defaultsOf_shows (by decide) hdefaults
  have hscan := resources_shows hp.identifiers hp.count.1 hp.count.2 (by decide) hd hresources
  have hpolicyRead := policy_shows hp (by decide) hpolicy
  have hsettingsRead := settings_shows hp (by decide) hsettings
  have hprofile : (⟨2,p.profile.vendor,p.profile.model,p.profile.deviceClass,p.profile.label,p.profile.registerMap,p.profile.view,
      (scanAt ids p.regCount).idOffset,(scanAt ids p.regCount).ids⟩ : ProfileMetadata) = p.profile := by
    rw [scanAt, ← hp.table.1, ← hp.table.2, ← hp.metadata.version]
  have hrest : ∀ (f : Views) (regs : List ℕ), regs = p.autopollRegs → fields optionKeys o = some f →
      driverOptions mdio f = .ok ⟨p.maxValueCode,p.autopollEnabled,p.autopollRegDelayMs,p.autopollCycleDelayMs⟩ →
      autopollOrder mdio (scanAt ids p.regCount) (f "autopoll_order") = .ok regs →
      parse mdio json = .ok p := by
    rintro f regs rfl hf hkind hpoll
    rw [parse, hr, need_some, ok_bind, check_of hversionRead, ok_bind, hnameRead, need_some, ok_bind,
      assets_shows hp.metadata hmap hview, need_some, ok_bind]
    dsimp only
    rw [device_shows hp.metadata (by decide) hdevice, need_some, ok_bind]
    dsimp only
    rw [transport_shows hp.address (by decide) htransport, ok_bind, hprotocolRead, hf, need_some, ok_bind, hkind, ok_bind,
      hdefaultsRead, ok_bind, hscan, ok_bind, hpoll, ok_bind, hpolicyRead, ok_bind]
    dsimp only
    rw [hsettingsRead, ok_bind, observability_shows (by decide) hobserve, ok_bind, hprofile]
    rfl
  have hp' := hp.options
  cases mdio with
  | true =>
    obtain ⟨f,hf,hkind,horder⟩ := mdioOptions_shows hp' (by decide) hoptions
    obtain ⟨-,hnodup,hregs,hcount,-,-⟩ := hp'
    refine hrest f _ rfl hf ?_ ?_
    · rw [driverOptions, if_pos rfl, hkind]
    · rw [autopollOrder, if_pos rfl, autopoll_shows hp.identifiers hnodup hregs hcount (by decide) horder]
  | false =>
    obtain ⟨f,hf,hkind⟩ := i2cOptions_shows hp' (by decide) hoptions
    refine hrest f [] hp'.2.2.1.symm hf ?_ ?_
    · rw [driverOptions, if_neg (by decide), hkind]
    · rw [autopollOrder, if_neg (by decide)]

end Bvstk.Config.Profile
