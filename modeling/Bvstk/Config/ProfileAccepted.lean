import Bvstk.Config.ProfileCanonical
import Mathlib.Algebra.BigOperators.Fin
import Mathlib.Algebra.Order.BigOperators.Group.Finset

/-! # What an accepted document says

A profile that `parse` returns is as its writer needs it: texts in UTF-8 without control
characters, one identifier for each register, and rules and settings for registers that exist.
-/
namespace Bvstk.Config.Profile

/-! ## Scalars -/

theorem text_written {cap : ℕ} {v : View} {s : Name} (hcap : 0 < cap) (h : text cap v = some s) : Written s ∧ s.length < cap := by
  obtain ⟨view,-,htext⟩ := Option.bind_eq_some_iff.mp h
  obtain ⟨⟨ps,cs,-,-,-,rfl⟩,hlength,hprintable⟩ := (text_iff hcap).mp htext
  exact ⟨⟨Utf8Text.isText_utf8 cs,hprintable⟩,hlength⟩

theorem nonempty_written {cap : ℕ} {v : View} {s : Name} (hcap : 0 < cap) (h : nonempty cap v = some s) :
    Written s ∧ s.length < cap ∧ s ≠ [] := by
  obtain ⟨htext,hne⟩ := Option.filter_eq_some_iff.mp h
  obtain ⟨hwritten,hlength⟩ := text_written hcap htext
  exact ⟨hwritten,hlength,by simpa using hne⟩

theorem number_le {max : UInt32} {v : View} {k : ℕ} (h : number max v = some k) : k ≤ max.toNat := by
  obtain ⟨n,hn,rfl⟩ := Option.map_eq_some_iff.mp h
  obtain ⟨view,-,hnumber⟩ := Option.bind_eq_some_iff.mp hn
  exact ((number_iff view max n).mp hnumber).2.2

theorem hex_le {max : UInt32} {v : View} {k : ℕ} (h : hex max v = some k) : k ≤ max.toNat := by
  obtain ⟨n,hn,rfl⟩ := Option.map_eq_some_iff.mp h
  obtain ⟨view,-,hhex⟩ := Option.bind_eq_some_iff.mp hn
  obtain ⟨ds,-,-,-,-,hle⟩ := (hex_iff view max n).mp hhex
  exact hle

/-- A member that may be missing is read, or it is the default. -/
theorem optional_eq_some {α : Type} {v : View} {read : View → Option α} {default a : α} (h : optional v read default = some a) :
    a = default ∨ read v = some a := by
  cases v with
  | none => exact Or.inl (Option.some.inj h).symm
  | some view => exact Or.inr h

/-! ## Lists -/

section
variable {σ : Type} {step : σ → Bytes → Except Status σ} {P : σ → Prop}

theorem itemsLoop_keeps (hstep : ∀ s e s', P s → step s e = .ok s' → P s') (array : View) (left : ℕ) {s s' : σ} (hs : P s)
    (cursor : View) (h : itemsLoop step array left s cursor = .ok s') : P s' := by
  induction left generalizing s cursor with
  | zero => cases h
  | succ left ih =>
    rw [itemsLoop] at h
    split at h
    · cases h
    · cases h
      exact hs
    · obtain ⟨s₁,hone,hrest⟩ := bind_eq_ok.mp h
      exact ih (hstep s _ s₁ hs hone) _ hrest

/-- What each turn of a loop over items keeps, the loop keeps. -/
theorem items_keep (hstep : ∀ s e s', P s → step s e = .ok s' → P s') {array : View} {s s' : σ} (hs : P s)
    (h : items step array s = .ok s') : P s' := itemsLoop_keeps hstep array _ hs none h

end

/-! ## Texts -/

theorem assets_accepted {r : Views} {registerMap view : Name} (h : assets r = some (registerMap,view)) :
    registerMapValid registerMap = true ∧ assetNameValid view jsExtension = true ∧ (view ≠ [] → registerMap ≠ []) := by
  simp only [assets, Option.bind_eq_bind, Option.bind_eq_some_iff, Option.some.injEq, Prod.mk.injEq] at h
  obtain ⟨m,hm,w,hw,rfl,rfl⟩ := h
  refine ⟨?_,?_⟩
  · rcases optional_eq_some hm with rfl | hread
    · decide
    · exact (Option.filter_eq_some_iff.mp hread).2
  · rcases optional_eq_some hw with rfl | hread
    · exact ⟨by decide,fun hne => absurd rfl hne⟩
    · have hboth := (Option.filter_eq_some_iff.mp hread).2
      rw [Bool.and_eq_true, bne_iff_ne] at hboth
      exact ⟨hboth.1,fun _ => hboth.2⟩

theorem device_accepted {v : View} {model vendor deviceClass label : Name} (h : device v = some (model,vendor,deviceClass,label)) :
    (Written model ∧ model.length < 65 ∧ model ≠ []) ∧ (Written vendor ∧ vendor.length < 65) ∧
      classValid deviceClass = true ∧ Written label ∧ label.length < 97 := by
  have hnil : Written [] := ⟨.nil,fun _ hb => nomatch hb⟩
  have hoptional : ∀ {cap : ℕ} {v : View} {s : Name}, 0 < cap → optional v (nonempty cap) [] = some s → Written s ∧ s.length < cap :=
    fun hcap hs => by
      rcases optional_eq_some hs with rfl | hread
      · exact ⟨hnil,hcap⟩
      · obtain ⟨hwritten,hlength,-⟩ := nonempty_written hcap hread
        exact ⟨hwritten,hlength⟩
  simp only [device, Option.bind_eq_bind, Option.bind_eq_some_iff, Option.some.injEq, Prod.mk.injEq] at h
  obtain ⟨f,-,m,hm,w,hw,c,hc,l,hl,rfl,rfl,rfl,rfl⟩ := h
  exact ⟨nonempty_written (by decide) hm,hoptional (by decide) hw,(Option.filter_eq_some_iff.mp hc).2,hoptional (by decide) hl⟩

/-! ## Numbers -/

theorem transport_accepted {mdio : Bool} {v : View} {address : ℕ} (h : transport mdio v = .ok address) :
    address ≤ (addressMax mdio).toNat := by
  unfold transport at h
  obtain ⟨f,-,h⟩ := bind_eq_ok.mp h
  obtain ⟨-,-,h⟩ := bind_eq_ok.mp h
  obtain ⟨a,ha,h⟩ := bind_eq_ok.mp h
  have haddress := hex_le (need_eq_ok.mp ha)
  cases mdio with
  | true =>
    rw [if_pos rfl] at h
    obtain ⟨_,-,h⟩ := bind_eq_ok.mp h
    exact Except.ok.inj h ▸ haddress
  | false =>
    rw [if_neg (by decide)] at h
    obtain ⟨_,-,h⟩ := bind_eq_ok.mp h
    exact Except.ok.inj h ▸ haddress

theorem mdioOptions_accepted {o : Views} {options : Options} (h : mdioOptions o = .ok options) :
    options.maxValueCode = 0 ∧ options.autopollRegDelayMs ≤ 60000 ∧ options.autopollCycleDelayMs ≤ 600000 := by
  unfold mdioOptions at h
  obtain ⟨-,-,h⟩ := bind_eq_ok.mp h
  obtain ⟨enabled,-,h⟩ := bind_eq_ok.mp h
  obtain ⟨regDelay,hreg,h⟩ := bind_eq_ok.mp h
  obtain ⟨cycleDelay,hcycle,h⟩ := bind_eq_ok.mp h
  cases h
  refine ⟨rfl,?_,?_⟩
  · rcases optional_eq_some (need_eq_ok.mp hreg) with rfl | hread
    · exact Nat.zero_le _
    · exact number_le hread
  · rcases optional_eq_some (need_eq_ok.mp hcycle) with rfl | hread
    · show 50 ≤ 600000
      decide
    · exact number_le hread

theorem i2cOptions_accepted {o : Views} {options : Options} (h : i2cOptions o = .ok options) :
    options.maxValueCode ≤ 64 ∧ options.autopollEnabled = false ∧ options.autopollRegDelayMs = 0 ∧ options.autopollCycleDelayMs = 0 := by
  unfold i2cOptions at h
  obtain ⟨code,hcode,h⟩ := bind_eq_ok.mp h
  obtain ⟨-,-,h⟩ := bind_eq_ok.mp h
  obtain ⟨-,-,h⟩ := bind_eq_ok.mp h
  cases h
  exact ⟨hex_le (need_eq_ok.mp hcode),rfl,rfl,rfl⟩

/-! ## Registers -/

/-- The identifier of a register of the scan. -/
def ResourceScan.id (s : ResourceScan) (k : ℕ) : Name := textAt s.ids (s.idOffset k)

/-- The registers that have been seen. -/
def ResourceScan.registers (s : ResourceScan) : Finset ℕ := (Finset.range 256).filter fun k => s.seen k = true

/-- What holds behind each register: the texts of the table do not overlap. -/
structure ResourceScan.Sound (mdio : Bool) (s : ResourceScan) : Prop where
  few : s.count ≤ registersMax mdio
  low : ∀ k, s.seen k = true → k < 256
  valid : ∀ k, s.seen k = true → idValid (s.id k) = true
  ended : ∀ k, s.seen k = true → 0 ∈ s.ids.drop (s.idOffset k)
  distinct : ∀ j k, s.seen j = true → s.seen k = true → s.id j = s.id k → j = k
  size : 1 + ∑ k ∈ s.registers, ((s.id k).length + 1) ≤ s.ids.length
  room : s.ids.length ≤ profileIdsCap

theorem textAt_append {ids : List UInt8} {offset : ℕ} (h : 0 ∈ ids.drop offset) (more : List UInt8) :
    textAt (ids ++ more) offset = textAt ids offset ∧ 0 ∈ (ids ++ more).drop offset := by
  have hoffset : offset ≤ ids.length := by
    by_contra hlong
    rw [List.drop_eq_nil_of_le (by omega)] at h
    cases h
  rw [textAt, textAt, List.drop_append_of_le_length hoffset]
  refine ⟨?_,List.mem_append_left _ h⟩
  rw [List.takeWhile_append, if_neg]
  intro hall
  have hplain := List.takeWhile_eq_self_iff.mp (List.IsPrefix.eq_of_length (List.takeWhile_prefix _) hall) 0 h
  exact absurd hplain (by decide)

/-- A text behind a table is found at its end. -/
theorem textAt_new (ids : List UInt8) {id : Name} (hid : 0 ∉ id) : textAt (ids ++ id ++ [0]) ids.length = id := by
  have hplain : ∀ b ∈ id, (b != 0) = true := fun b hb => by
    rw [bne_iff_ne]
    rintro rfl
    exact hid hb
  rw [textAt, List.append_assoc, List.drop_left, List.takeWhile_append_of_pos hplain]
  simp

/-- One register more. -/
def ResourceScan.add (s : ResourceScan) (reg : ℕ) (id : Name) : ResourceScan :=
  ⟨Function.update s.seen reg true,s.count + 1,s.ids ++ id ++ [0],Function.update s.idOffset reg s.ids.length⟩

@[simp] theorem add_seen (s : ResourceScan) (reg : ℕ) (id : Name) : (s.add reg id).seen = Function.update s.seen reg true := rfl
@[simp] theorem add_ids (s : ResourceScan) (reg : ℕ) (id : Name) : (s.add reg id).ids = s.ids ++ id ++ [0] := rfl
@[simp] theorem add_idOffset (s : ResourceScan) (reg : ℕ) (id : Name) :
    (s.add reg id).idOffset = Function.update s.idOffset reg s.ids.length := rfl

theorem resource_accepted {mdio : Bool} {defaults : Views} {s s' : ResourceScan} {entry : Bytes}
    (h : resource mdio defaults s entry = .ok s') : ∃ reg id, s' = s.add reg id ∧ idValid id = true ∧
      reg ≤ (registerMax mdio).toNat ∧ s.seen reg = false ∧ s.count < registersMax mdio ∧
      (∀ k < 256, s.seen k = true → s.id k ≠ id) ∧ id.length + 1 ≤ profileIdsCap - s.ids.length := by
  unfold resource at h
  obtain ⟨f,-,h⟩ := bind_eq_ok.mp h
  obtain ⟨id,hid,h⟩ := bind_eq_ok.mp h
  obtain ⟨-,-,h⟩ := bind_eq_ok.mp h
  obtain ⟨reg,hreg,h⟩ := bind_eq_ok.mp h
  obtain ⟨_,hseen,h⟩ := bind_eq_ok.mp h
  obtain ⟨_,hnew,h⟩ := bind_eq_ok.mp h
  obtain ⟨_,hroom,h⟩ := bind_eq_ok.mp h
  obtain ⟨-,-,h⟩ := bind_eq_ok.mp h
  obtain ⟨hfree,hcount⟩ := check_eq_ok.mp hseen
  refine ⟨reg,id,(Except.ok.inj h).symm,(Option.filter_eq_some_iff.mp (need_eq_ok.mp hid)).2,hex_le (need_eq_ok.mp hreg),hfree,hcount,
    fun k hk hk' heq => ?_,check_eq_ok.mp hroom⟩
  have hnone := List.any_eq_false.mp (check_eq_ok.mp hnew) k (List.mem_range.mpr hk)
  rw [hk', Bool.true_and, beq_iff_eq] at hnone
  exact hnone heq

theorem ResourceScan.Sound.add {mdio : Bool} {s : ResourceScan} (hs : s.Sound mdio) {reg : ℕ} {id : Name} (hid : idValid id = true)
    (hreg : reg < 256) (hseen : s.seen reg = false) (hcount : s.count < registersMax mdio)
    (hnew : ∀ k < 256, s.seen k = true → s.id k ≠ id) (hroom : id.length + 1 ≤ profileIdsCap - s.ids.length) :
    (s.add reg id).Sound mdio := by
  have hself : (s.add reg id).id reg = id := by
    rw [ResourceScan.id, add_idOffset, add_ids, Function.update_self]
    exact textAt_new s.ids (idValid_plain hid).2.2.2
  have hother : ∀ k, s.seen k = true → k ≠ reg ∧ (s.add reg id).id k = s.id k ∧
      0 ∈ (s.add reg id).ids.drop ((s.add reg id).idOffset k) := fun k hk => by
    have hne : k ≠ reg := by
      rintro rfl
      rw [hseen] at hk
      cases hk
    have htext := textAt_append (hs.ended k hk) (id ++ [0])
    rw [← List.append_assoc] at htext
    rw [ResourceScan.id, add_idOffset, add_ids, Function.update_of_ne hne]
    exact ⟨hne,htext.1,htext.2⟩
  have hcases : ∀ k, (s.add reg id).seen k = true → k = reg ∨ s.seen k = true := fun k hk => by
    by_cases hkr : k = reg
    · exact Or.inl hkr
    · rw [add_seen, Function.update_of_ne hkr] at hk
      exact Or.inr hk
  have hregisters : (s.add reg id).registers = insert reg s.registers := by
    ext k
    rw [ResourceScan.registers, ResourceScan.registers, Finset.mem_insert, Finset.mem_filter, Finset.mem_filter, Finset.mem_range,
      add_seen]
    by_cases hkr : k = reg
    · simp [hkr, hreg]
    · simp [hkr]
  have hfresh : reg ∉ s.registers := by
    simp [ResourceScan.registers, hseen]
  constructor
  · exact hcount
  · intro k hk
    rcases hcases k hk with rfl | hk
    · exact hreg
    · exact hs.low k hk
  · intro k hk
    rcases hcases k hk with rfl | hk
    · rwa [hself]
    · rw [(hother k hk).2.1]
      exact hs.valid k hk
  · intro k hk
    rcases hcases k hk with rfl | hk
    · rw [add_idOffset, add_ids, Function.update_self, List.append_assoc, List.drop_left]
      simp
    · exact (hother k hk).2.2
  · intro j k hj hk heq
    rcases hcases j hj with rfl | hj'
    · rcases hcases k hk with rfl | hk'
      · rfl
      · rw [hself, (hother k hk').2.1] at heq
        exact absurd heq.symm (hnew k (hs.low k hk') hk')
    · rcases hcases k hk with rfl | hk'
      · rw [hself, (hother j hj').2.1] at heq
        exact absurd heq (hnew j (hs.low j hj') hj')
      · rw [(hother j hj').2.1, (hother k hk').2.1] at heq
        exact hs.distinct j k hj' hk' heq
  · have hold : ∑ k ∈ s.registers, (((s.add reg id).id k).length + 1) = ∑ k ∈ s.registers, ((s.id k).length + 1) :=
      Finset.sum_congr rfl fun k hk => by rw [(hother k (Finset.mem_filter.mp hk).2).2.1]
    have hsize := hs.size
    rw [hregisters, Finset.sum_insert hfresh, hold, hself, add_ids]
    simp only [List.length_append, List.length_singleton]
    omega
  · have hroom' := hs.room
    rw [add_ids]
    simp only [List.length_append, List.length_singleton]
    omega

theorem registers_count {mdio : Bool} : registersMax mdio ≤ 256 := by
  cases mdio with
  | true => decide
  | false => decide

/-- The identifiers of an accepted document fit the table in any order. -/
theorem resources_accepted {mdio : Bool} {defaults : Views} {v : View} {s : ResourceScan} (h : resources mdio defaults v = .ok s) :
    0 < s.count ∧ s.count ≤ registersMax mdio ∧ IdsOk s.id s.count := by
  unfold resources at h
  obtain ⟨s₁,hitems,h⟩ := bind_eq_ok.mp h
  obtain ⟨_,hsome,h⟩ := bind_eq_ok.mp h
  obtain ⟨_,hall,h⟩ := bind_eq_ok.mp h
  obtain rfl := Except.ok.inj h
  have hstart : ResourceScan.Sound mdio ⟨fun _ => false,0,[0],fun _ => 0⟩ := by
    refine ⟨Nat.zero_le _,fun _ hk => (nomatch hk),fun _ hk => (nomatch hk),fun _ hk => (nomatch hk),fun _ _ hj => (nomatch hj),?_,?_⟩
    · simp [ResourceScan.registers]
    · decide
  have hlow : (registerMax mdio).toNat < 256 := by
    cases mdio with
    | true => decide
    | false => decide
  have hs : s₁.Sound mdio := by
    refine items_keep (fun s entry s' hs hstep => ?_) hstart hitems
    obtain ⟨reg,id,rfl,hid,hreg,hseen,hcount,hnew,hroom⟩ := resource_accepted hstep
    exact hs.add hid (lt_of_le_of_lt hreg hlow) hseen hcount hnew hroom
  have hseen : ∀ k < s₁.count, s₁.seen k = true := fun k hk =>
    List.all_eq_true.mp (check_eq_ok.mp hall) k (List.mem_range.mpr hk)
  refine ⟨Nat.pos_of_ne_zero (check_eq_ok.mp hsome),hs.few,fun k hk => hs.valid k (hseen k hk),
    fun j hj k hk => hs.distinct j k (hseen j hj) (hseen k hk),?_⟩
  have hlayout : ∀ count, (layout s₁.id count).length = 1 + ∑ k ∈ Finset.range count, ((s₁.id k).length + 1) := fun count => by
    induction count with
    | zero => rfl
    | succ count ih =>
      rw [layout_succ, List.length_append, List.length_append, ih, Finset.sum_range_succ, List.length_singleton]
      omega
  have hsubset : Finset.range s₁.count ⊆ s₁.registers := fun k hk => by
    have hk' := Finset.mem_range.mp hk
    have hle := hs.few.trans registers_count
    exact Finset.mem_filter.mpr ⟨Finset.mem_range.mpr (by omega),hseen k hk'⟩
  calc (layout s₁.id s₁.count).length = 1 + ∑ k ∈ Finset.range s₁.count, ((s₁.id k).length + 1) := hlayout _
    _ ≤ 1 + ∑ k ∈ s₁.registers, ((s₁.id k).length + 1) := Nat.add_le_add_left (Finset.sum_le_sum_of_subset hsubset) 1
    _ ≤ s₁.ids.length := hs.size
    _ ≤ profileIdsCap := hs.room

theorem lookup_accepted {s : ResourceScan} {v : View} {reg : ℕ} (h : lookup s v = some reg) : reg < s.count := by
  obtain ⟨name,-,hfind⟩ := Option.bind_eq_some_iff.mp h
  exact List.mem_range.mp (List.mem_of_find?_eq_some hfind)

/-! ## Lists of the document -/

theorem autopoll_accepted {s : ResourceScan} {v : View} {regs : List ℕ} (h : autopollOrder true s v = .ok regs) :
    regs.Nodup ∧ (∀ r ∈ regs, r < s.count) ∧ regs.length ≤ mdioAutopollRegsMax := by
  rw [autopollOrder, if_pos rfl] at h
  refine items_keep (P := fun regs => regs.Nodup ∧ (∀ r ∈ regs, r < s.count) ∧ regs.length ≤ mdioAutopollRegsMax)
    (fun regs entry regs' hregs hstep => ?_) (by simp) h
  obtain ⟨hnodup,hbelow,-⟩ := hregs
  unfold autopollReg at hstep
  obtain ⟨reg,hreg,hstep⟩ := bind_eq_ok.mp hstep
  obtain ⟨_,hcheck,hstep⟩ := bind_eq_ok.mp hstep
  obtain rfl := Except.ok.inj hstep
  obtain ⟨hnew,hroom⟩ := check_eq_ok.mp hcheck
  refine ⟨List.nodup_append.mpr ⟨hnodup,List.nodup_singleton reg,?_⟩,?_,?_⟩
  · rintro a ha b hb rfl
    exact hnew (List.mem_singleton.mp hb ▸ ha)
  · intro r hr
    rcases List.mem_append.mp hr with hr | hr
    · exact hbelow r hr
    · rw [List.mem_singleton.mp hr]
      exact lookup_accepted (need_eq_ok.mp hreg)
  · rw [List.length_append, List.length_singleton]
    exact hroom

theorem matchOf_accepted {mdio : Bool} {v : View} {val mask : ℕ} (h : matchOf mdio v = some (val,mask)) :
    val ≤ (maximum mdio).toNat ∧ mask ≤ (maximum mdio).toNat := by
  rcases optional_eq_some h with heq | hread
  · cases heq
    exact ⟨Nat.zero_le _,Nat.zero_le _⟩
  · obtain ⟨f,-,hmatch⟩ := Option.bind_eq_some_iff.mp hread
    split at hmatch
    · cases hmatch
      exact ⟨Nat.zero_le _,Nat.zero_le _⟩
    · simp only [Option.bind_eq_bind, Option.bind_eq_some_iff, Option.some.injEq, Prod.mk.injEq] at hmatch
      obtain ⟨a,ha,b,hb,rfl,rfl⟩ := hmatch
      exact ⟨hex_le ha,hex_le hb⟩

theorem rules_accepted {mdio : Bool} {s : ResourceScan} {maxValueCode : ℕ} {v : View} {rules : List PolicyRule}
    (h : items (rule mdio s maxValueCode) v [] = .ok rules) :
    rules.length ≤ rulesMax mdio ∧ ∀ r ∈ rules, RuleOk mdio s.count maxValueCode r := by
  refine items_keep (P := fun rules => rules.length ≤ rulesMax mdio ∧ ∀ r ∈ rules, RuleOk mdio s.count maxValueCode r)
    (fun rules entry rules' hrules hstep => ?_) (by simp) h
  unfold rule at hstep
  obtain ⟨_,hroom,hstep⟩ := bind_eq_ok.mp hstep
  obtain ⟨f,-,hstep⟩ := bind_eq_ok.mp hstep
  obtain ⟨reg,hreg,hstep⟩ := bind_eq_ok.mp hstep
  obtain ⟨⟨val,mask⟩,hmatch,hstep⟩ := bind_eq_ok.mp hstep
  obtain ⟨_,hmask,hstep⟩ := bind_eq_ok.mp hstep
  obtain ⟨_,hval,hstep⟩ := bind_eq_ok.mp hstep
  obtain rfl := Except.ok.inj hstep
  obtain ⟨hvalue,hmaskMax⟩ := matchOf_accepted (need_eq_ok.mp hmatch)
  constructor
  · rw [List.length_append, List.length_singleton]
    exact check_eq_ok.mp hroom
  · intro r hr
    rcases List.mem_append.mp hr with hr | hr
    · exact hrules.2 r hr
    · rw [List.mem_singleton.mp hr]
      refine ⟨lookup_accepted (need_eq_ok.mp hreg),hvalue,hmaskMax,?_⟩
      rcases check_eq_ok.mp hmask with hmdio | hmask
      · exact Or.inl hmdio
      · exact (check_eq_ok.mp hval).imp_right fun hval => ⟨hmask,hval⟩

theorem policy_accepted {mdio : Bool} {s : ResourceScan} {maxValueCode : ℕ} {v : View} {mode : PolicyMode}
    {white black : List PolicyRule} (h : policy mdio s maxValueCode v = .ok (mode,white,black)) :
    (white.length ≤ rulesMax mdio ∧ ∀ r ∈ white, RuleOk mdio s.count maxValueCode r) ∧
      (black.length ≤ rulesMax mdio ∧ ∀ r ∈ black, RuleOk mdio s.count maxValueCode r) := by
  unfold policy at h
  obtain ⟨policies,-,h⟩ := bind_eq_ok.mp h
  obtain ⟨read,-,h⟩ := bind_eq_ok.mp h
  obtain ⟨_,-,h⟩ := bind_eq_ok.mp h
  obtain ⟨⟨m,w,b⟩,-,h⟩ := bind_eq_ok.mp h
  obtain ⟨ws,hwhite,h⟩ := bind_eq_ok.mp h
  obtain ⟨bs,hblack,h⟩ := bind_eq_ok.mp h
  cases h
  exact ⟨rules_accepted hwhite,rules_accepted hblack⟩

theorem seeds_accepted {mdio : Bool} {s : ResourceScan} {v : View} {seeds : List Seed} (h : items (seed mdio s) v [] = .ok seeds) :
    seeds.length ≤ settingsMax mdio ∧ (seeds.map Seed.reg).Nodup ∧ ∀ x ∈ seeds, x.reg < s.count ∧ x.val ≤ (maximum mdio).toNat := by
  refine items_keep (P := fun seeds => seeds.length ≤ settingsMax mdio ∧ (seeds.map Seed.reg).Nodup ∧
    ∀ x ∈ seeds, x.reg < s.count ∧ x.val ≤ (maximum mdio).toNat) (fun seeds entry seeds' hseeds hstep => ?_) (by simp) h
  obtain ⟨-,hnodup,hbound⟩ := hseeds
  unfold seed at hstep
  obtain ⟨_,hroom,hstep⟩ := bind_eq_ok.mp hstep
  obtain ⟨f,-,hstep⟩ := bind_eq_ok.mp hstep
  obtain ⟨reg,hreg,hstep⟩ := bind_eq_ok.mp hstep
  obtain ⟨_,hnew,hstep⟩ := bind_eq_ok.mp hstep
  obtain ⟨val,hval,hstep⟩ := bind_eq_ok.mp hstep
  obtain rfl := Except.ok.inj hstep
  refine ⟨?_,?_,?_⟩
  · rw [List.length_append, List.length_singleton]
    exact check_eq_ok.mp hroom
  · rw [List.map_append, List.map_singleton]
    refine List.nodup_append.mpr ⟨hnodup,List.nodup_singleton reg,?_⟩
    rintro a ha b hb rfl
    obtain ⟨x,hx,hxreg⟩ := List.mem_map.mp ha
    exact check_eq_ok.mp hnew x hx (hxreg.trans (List.mem_singleton.mp hb))
  · intro x hx
    rcases List.mem_append.mp hx with hx | hx
    · exact hbound x hx
    · rw [List.mem_singleton.mp hx]
      exact ⟨lookup_accepted (need_eq_ok.mp hreg),hex_le (need_eq_ok.mp hval)⟩

theorem settings_accepted {mdio : Bool} {s : ResourceScan} {v : View} {seeds : List Seed} (h : settings mdio s v = .ok seeds) :
    seeds.length ≤ settingsMax mdio ∧ (seeds.map Seed.reg).Nodup ∧ ∀ x ∈ seeds, x.reg < s.count ∧ x.val ≤ (maximum mdio).toNat := by
  cases v with
  | none =>
    cases h
    simp
  | some view =>
    obtain ⟨f,-,h⟩ := bind_eq_ok.mp h
    obtain ⟨_,-,h⟩ := bind_eq_ok.mp h
    exact seeds_accepted h

/-! ## The whole profile -/

theorem lastSeeds_of_nodup {seeds : List Seed} (h : (seeds.map Seed.reg).Nodup) : lastSeeds seeds = seeds := by
  induction seeds with
  | nil => rfl
  | cons s seeds ih =>
    rw [List.map_cons, List.nodup_cons] at h
    rw [lastSeeds, if_neg, ih h.2]
    rintro ⟨x,hx,heq⟩
    exact h.1 (heq ▸ List.mem_map_of_mem hx)

theorem writtenSeeds_of_nodup {mdio : Bool} {seeds : List Seed} (h : (seeds.map Seed.reg).Nodup) : writtenSeeds mdio seeds = seeds := by
  unfold writtenSeeds
  split
  · rfl
  · exact lastSeeds_of_nodup h

theorem resourceId_modern {p : ProfileMetadata} (h : p.version = 2) (reg : ℕ) : resourceId p reg = textAt p.ids (p.idOffset reg) :=
  if_pos h

/-- What an accepted document gives is a profile of version 2 that can be written again. -/
theorem parse_accepted {mdio : Bool} {json : Bytes} {p : DeviceProfile} (h : parse mdio json = .ok p) :
    p.profile.version = 2 ∧ writtenSeeds mdio p.settings = p.settings ∧ Canonical mdio (modern mdio p) (resourceId p.profile) ∧
      Encoded (modern mdio p) := by
  unfold parse at h
  obtain ⟨r,-,h⟩ := bind_eq_ok.mp h
  obtain ⟨_,-,h⟩ := bind_eq_ok.mp h
  obtain ⟨name,hname,h⟩ := bind_eq_ok.mp h
  obtain ⟨⟨registerMap,view⟩,hassets,h⟩ := bind_eq_ok.mp h
  obtain ⟨⟨model,vendor,deviceClass,label⟩,hdevice,h⟩ := bind_eq_ok.mp h
  obtain ⟨address,haddress,h⟩ := bind_eq_ok.mp h
  obtain ⟨o,-,h⟩ := bind_eq_ok.mp h
  obtain ⟨options,hoptions,h⟩ := bind_eq_ok.mp h
  obtain ⟨defaults,-,h⟩ := bind_eq_ok.mp h
  obtain ⟨s,hresources,h⟩ := bind_eq_ok.mp h
  obtain ⟨regs,hregs,h⟩ := bind_eq_ok.mp h
  obtain ⟨⟨mode,white,black⟩,hpolicy,h⟩ := bind_eq_ok.mp h
  obtain ⟨seeds,hseeds,h⟩ := bind_eq_ok.mp h
  obtain ⟨_,-,h⟩ := bind_eq_ok.mp h
  obtain rfl := Except.ok.inj h
  obtain ⟨hmap,hview,hmapped⟩ := assets_accepted (need_eq_ok.mp hassets)
  obtain ⟨⟨hmodel,hmodelLength,hmodelNe⟩,hvendor,hclass,hlabel⟩ := device_accepted (need_eq_ok.mp hdevice)
  obtain ⟨hpos,hcount,hids⟩ := resources_accepted hresources
  obtain ⟨hwhite,hblack⟩ := policy_accepted hpolicy
  obtain ⟨hlength,hnodup,hbound⟩ := settings_accepted hseeds
  have hwritten : writtenSeeds mdio seeds = seeds := writtenSeeds_of_nodup hnodup
  refine ⟨rfl,hwritten,?_,⟨hmodel,hvendor.1,hlabel.1⟩⟩
  constructor
  · exact (Option.filter_eq_some_iff.mp (need_eq_ok.mp hname)).2
  · exact ⟨rfl,⟨hmodelNe,hmodelLength,hmodel.2⟩,⟨hvendor.2,hvendor.1.2⟩,⟨hlabel.2,hlabel.1.2⟩,hclass,hmap,hview,hmapped⟩
  · exact transport_accepted haddress
  · cases mdio with
    | true =>
      obtain ⟨hcode,hregDelay,hcycleDelay⟩ := mdioOptions_accepted hoptions
      obtain ⟨hregsNodup,hregsBelow,hregsFew⟩ := autopoll_accepted hregs
      exact ⟨hcode,hregsNodup,hregsBelow,hregsFew,hregDelay,hcycleDelay⟩
    | false =>
      obtain ⟨hcode,henabled,hregDelay,hcycleDelay⟩ := i2cOptions_accepted hoptions
      exact ⟨hcode,henabled,(Except.ok.inj hregs).symm,hregDelay,hcycleDelay⟩
  · exact ⟨hpos,hcount⟩
  · exact hids
  · exact ⟨rfl,rfl⟩
  · exact hwhite
  · exact hblack
  · rw [modern]
    dsimp only
    rw [hwritten]
    exact ⟨hlength,hnodup,hbound⟩

end Bvstk.Config.Profile
