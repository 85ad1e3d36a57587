import Bvstk.Console.MdioEditors

/-! # Which edits of MDIO rules are faithful

The service always is; the console deletes one of several rules that are the same.
-/
namespace Bvstk.Console
open Config RuleSets CallLog

/-! ## The console -/

theorem maskedValue_error {value : Word} {mask : Option Word} {status : Status}
    (h : maskedValue value mask = .error status) : status ≠ .ok := by
  unfold maskedValue at h
  split at h
  · split at h
    · cases h
    · cases h
      simp
  · split at h
    · rename_i hvalue
      cases h
      exact busShellNumber_error hvalue
    · split at h
      · cases h
      · split at h
        · rename_i hmask
          cases h
          exact busShellNumber_error hmask
        · cases h

theorem ruleWords_error {c : MdioPhyConfig} {list action reg value : Word} {mask : Option Word} {status : Status}
    (h : ruleWords c list action reg value mask = .error status) : status ≠ .ok := by
  unfold ruleWords at h
  split at h
  · cases h
    simp
  · split at h
    · cases h
      simp
    · split at h
      · rename_i hreg
        cases h
        exact busShellNumber_error hreg
      · split at h
        · rename_i hvalue
          cases h
          exact maskedValue_error hvalue
        · cases h

theorem editPolicyWords_error {c : MdioPhyConfig} {words : List Word} {status : Status}
    (h : editPolicyWords c words = .error status) : status ≠ .ok := by
  unfold editPolicyWords at h
  split at h
  · split at h
    · split at h
      · cases h
        simp
      · cases h
    · split at h
      · cases h
        simp
      · split at h
        · cases h
        · cases h
          simp
  · exact ruleWords_error h
  · exact ruleWords_error h
  · cases h
    simp

/-- What is asked for has a normal rule, for a register of the PHY. -/
theorem ruleWords_rule {c : MdioPhyConfig} {list action reg value : Word} {mask : Option Word} {edit : Edit MdioRule}
    (h : ruleWords c list action reg value mask = .ok edit) :
    ∃ s rule number, (edit = .add s (normal rule) ∨ edit = .remove s (normal rule)) ∧ rule.reg = UInt8.ofNat number ∧
      number ≤ c.regCount.toNat - 1 := by
  unfold ruleWords at h
  split at h
  · cases h
  · rename_i list _
    split at h
    · cases h
    · split at h
      · cases h
      · rename_i number hreg
        split at h
        · cases h
        · rename_i value mask _
          refine ⟨sideOf list,⟨UInt8.ofNat number,UInt16.ofNat value,UInt16.ofNat mask⟩,number,?_,rfl,busShellNumber_le hreg⟩
          dsimp only at h
          split_ifs at h
          · exact Or.inl (Except.ok.inj h).symm
          · exact Or.inr (Except.ok.inj h).symm

/-- Rules come from the words as normal ones. -/
theorem editPolicyWords_rule {c : MdioPhyConfig} {words : List Word} {s : Side} {rule : MdioRule}
    (h : editPolicyWords c words = .ok (.add s rule) ∨ editPolicyWords c words = .ok (.remove s rule)) :
    normal rule = rule ∧ ∃ number, rule.reg = UInt8.ofNat number ∧ number ≤ c.regCount.toNat - 1 := by
  have hwords : ∀ {list action reg value mask edit}, ruleWords c list action reg value mask = .ok edit →
      edit = .add s rule ∨ edit = .remove s rule →
        normal rule = rule ∧ ∃ number, rule.reg = UInt8.ofNat number ∧ number ≤ c.regCount.toNat - 1 := by
    intro list action reg value mask edit hok hedit
    obtain ⟨s',rule',number,hcases,hreg,hle⟩ := ruleWords_rule hok
    have hrule : rule = normal rule' := by
      rcases hcases with rfl | rfl
      · rcases hedit with hedit | hedit
        · cases hedit
          rfl
        · cases hedit
      · rcases hedit with hedit | hedit
        · cases hedit
        · cases hedit
          rfl
    rw [hrule, normal_normal]
    exact ⟨rfl,number,hreg,hle⟩
  unfold editPolicyWords at h
  split at h
  · split_ifs at h
    · split at h
      · rcases h with h | h
        all_goals cases h
      · rcases h with h | h
        all_goals cases h
    all_goals
      split at h
      · rcases h with h | h
        all_goals cases h
      · rcases h with h | h
        all_goals cases h
  · rcases h with h | h
    · exact hwords h (Or.inl rfl)
    · exact hwords h (Or.inr rfl)
  · rcases h with h | h
    · exact hwords h (Or.inl rfl)
    · exact hwords h (Or.inr rfl)
  · rcases h with h | h
    all_goals cases h

/-- A deleted rule is not listed twice. -/
def MdioDeletesSingle (c : MdioPhyConfig) (words : List Word) : Prop :=
  ∀ s rule, editPolicyWords c words = .ok (.remove s rule) →
    ((side c s).countP fun r => decide (normal r = rule)) ≤ 1

theorem editPolicy_faithful_iff (c : MdioPhyConfig) (words : List Word) :
    mdioConsoleEditor.Faithful c words ↔ MdioDeletesSingle c words := by
  have hstep : mdioConsoleEditor.step c words = ((editPolicy c words).2,decide ((editPolicy c words).1 = .ok)) := rfl
  unfold MdioDeletesSingle
  unfold editPolicy at hstep
  cases hwords : editPolicyWords c words with
  | error status =>
    simp only [hwords, editPolicyWords_error hwords, decide_false] at hstep
    rw [Editor.faithful_refused hstep]
    simp
  | ok edit =>
    have hasks : mdioConsoleEditor.asks c words = some edit := by
      simp [mdioConsoleEditor, hwords, Except.toOption]
    simp only [hwords] at hstep
    cases edit with
    | add s rule =>
      have hnormal := (editPolicyWords_rule (Or.inl hwords)).1
      simp only [editPolicyRules] at hstep
      split_ifs at hstep with hany hfull
      · rw [Editor.faithful_acknowledged hstep hasks]
        have hpresent := phyPolicy_present c s (any_same.mp hany)
        rw [hnormal] at hpresent
        simp [mdioConsoleEditor, hpresent]
      · rw [Editor.faithful_refused hstep]
        simp
      · rw [Editor.faithful_acknowledged hstep hasks]
        have happend := phyPolicy_append c s rule
        rw [hnormal] at happend
        simp [mdioConsoleEditor, happend]
    | remove s rule =>
      have hnormal := (editPolicyWords_rule (Or.inr hwords)).1
      have hsingle : (∀ s' rule', (Except.ok (.remove s rule) : Except Status (Edit MdioRule)) = .ok (.remove s' rule') →
          ((side c s').countP fun r => decide (normal r = rule')) ≤ 1) ↔
          ((side c s).countP fun r => decide (normal r = rule)) ≤ 1 := by
        constructor
        · exact fun h => h s rule rfl
        · rintro h _ _ ⟨⟩
          exact h
      rw [hsingle]
      simp only [editPolicyRules] at hstep
      split_ifs at hstep with hany
      · rw [Editor.faithful_acknowledged hstep hasks]
        have herase := phyPolicy_erase_iff c s rule
        rw [hnormal] at herase
        exact herase
      · have hnone : ((side c s).countP fun r => decide (normal r = rule)) = 0 := by
          rw [List.countP_eq_zero]
          intro r hr heq
          refine hany (any_same.mpr ?_)
          rw [hnormal, ← of_decide_eq_true heq]
          exact List.mem_map_of_mem hr
        rw [Editor.faithful_refused hstep]
        simp [hnone]
    | clear s =>
      simp only [editPolicyRules, decide_true] at hstep
      rw [Editor.faithful_acknowledged hstep hasks]
      simp [mdioConsoleEditor, phyPolicy_nil]
    | setMode mode =>
      simp only [editPolicyRules, decide_true] at hstep
      rw [Editor.faithful_acknowledged hstep hasks]
      simp [mdioConsoleEditor, phyPolicy_setPolicy]

/-- An edited configuration stays valid. -/
theorem editPolicy_valid {c : MdioPhyConfig} (h : c.Valid) (words : List Word) : (editPolicy c words).2.Valid := by
  unfold editPolicy
  split
  · exact h
  · rename_i edit hwords
    cases edit with
    | add s rule =>
      obtain ⟨-,number,hreg,hle⟩ := editPolicyWords_rule (Or.inl hwords)
      have hzero : 0 < c.regCount.toNat := by
        obtain ⟨-,-,-,hzero,-⟩ := h.shaped
        exact Nat.pos_of_ne_zero fun hnone => hzero (UInt8.toNat.inj hnone)
      have hnumber : number < 256 := by have := c.regCount.toNat_lt; omega
      have hlt : rule.reg < c.regCount := by
        rw [hreg, UInt8.lt_iff_toNat_lt, UInt8.toNat_ofNat_of_lt' hnumber]
        omega
      simp only [editPolicyRules]
      split_ifs with hany hfull
      · exact h
      · exact h
      · have hlen : (side c s).length ≤ mdioRulesMax := h.rules_length (modeOf s)
        refine h.setRules (modeOf s) (by rw [List.length_append, List.length_singleton]; omega) fun r hr => ?_
        rcases List.mem_append.mp hr with hr | hr
        · exact h.rules_reg (modeOf s) r hr
        · exact List.mem_singleton.mp hr ▸ hlt
    | remove s rule =>
      simp only [editPolicyRules]
      split_ifs
      · have hsub : ((side c s).eraseP (·.same rule.reg rule.val rule.mask)).Sublist (c.rules (modeOf s)) := List.eraseP_sublist
        exact h.setRules (modeOf s) (hsub.length_le.trans (h.rules_length _)) fun r hr => h.rules_reg _ r (hsub.subset hr)
      · exact h
    | clear s => exact h.setRules (modeOf s) (Nat.zero_le _) fun _ hr => absurd hr List.not_mem_nil
    | setMode mode => exact h.setPolicy (modeOf mode)

/-! ## The service -/

section
variable {ε : Type} (P : Mdio.MdioPlatform ε) {d : ℕ}

/-- What an edit of the service does to a configuration. -/
def phyEdit (c : MdioPhyConfig) : Edit MdioRule → Status × MdioPhyConfig
  | .add s rule => Mdio.addRule c (modeOf s) rule.reg rule.val rule.mask
  | .remove s rule => Mdio.removeRule c (modeOf s) rule.reg rule.val rule.mask
  | .clear s => (.ok,c.setRules (modeOf s) [])
  | .setMode mode => (.ok,c.setPolicy (modeOf mode))

theorem editPhy_known {w : Mdio.MdioWorld ε} {c : MdioPhyConfig} (h : w.state.devices.items[d]? = some c)
    (edit : Mdio.MdioEdit) :
    (Mdio.editPhy w d edit).1 = (edit.apply c).1 ∧
      (Mdio.editPhy w d edit).2.state.devices.items[d]? = some (edit.apply c).2 := by
  have hlt : d < w.state.devices.items.length := (List.getElem?_eq_some_iff.mp h).1
  unfold Mdio.editPhy
  split
  · rename_i hnone
    rw [h] at hnone
    cases hnone
  · rename_i c' hsome
    obtain rfl : c' = c := Option.some.inj (hsome.symm.trans h)
    exact ⟨rfl,List.getElem?_set_self hlt⟩

theorem mdioServiceEdit_refused {w : Mdio.MdioWorld ε} (hlock : (P.lock w.env).1 ≠ .ok) (edit : Edit MdioRule) :
    mdioServiceEdit P d w edit = ((P.lock w.env).1,{ w with env := (P.lock w.env).2 }) := by
  have hrefuse : ∀ f, Mdio.locked P w id f = ((P.lock w.env).1,{ w with env := (P.lock w.env).2 }) := fun f => if_pos hlock
  cases edit with
  | add s rule => simp only [mdioServiceEdit, Mdio.serviceRuleAdd, hrefuse]
  | remove s rule => simp only [mdioServiceEdit, Mdio.serviceRuleRemove, hrefuse]
  | clear s => simp only [mdioServiceEdit, Mdio.serviceRuleClearList, hrefuse]
  | setMode mode => simp only [mdioServiceEdit, Mdio.serviceSetPolicy, hrefuse]

theorem mdioServiceEdit_known {w : Mdio.MdioWorld ε} (hlock : (P.lock w.env).1 = .ok) {c : MdioPhyConfig}
    (h : w.state.devices.items[d]? = some c) (edit : Edit MdioRule) :
    (mdioServiceEdit P d w edit).1 = (phyEdit c edit).1 ∧
      (mdioServiceEdit P d w edit).2.state.devices.items[d]? = some (phyEdit c edit).2 := by
  have hlocked : ∀ f : Mdio.MdioWorld ε → Status × Mdio.MdioWorld ε,
      Mdio.locked P w id f = f { w with env := (P.lock w.env).2 } := fun f => if_neg (not_not.mpr hlock)
  have hlt : ¬w.state.devices.items.length ≤ d := Nat.not_le.mpr (List.getElem?_eq_some_iff.mp h).1
  have hlist : ∀ (s : Side) (edit : PolicyMode → Mdio.MdioEdit), Mdio.editList { w with env := (P.lock w.env).2 } d
      (modeOf s).code edit = Mdio.editPhy { w with env := (P.lock w.env).2 } d (edit (modeOf s)) := by
    intro s edit
    unfold Mdio.editList
    rw [if_neg hlt, ofCode_code]
  cases edit with
  | add s rule =>
    simp only [mdioServiceEdit, Mdio.serviceRuleAdd, hlocked, hlist]
    exact editPhy_known (w := { w with env := (P.lock w.env).2 }) h _
  | remove s rule =>
    simp only [mdioServiceEdit, Mdio.serviceRuleRemove, hlocked, hlist]
    exact editPhy_known (w := { w with env := (P.lock w.env).2 }) h _
  | clear s =>
    simp only [mdioServiceEdit, Mdio.serviceRuleClearList, hlocked, hlist]
    exact editPhy_known (w := { w with env := (P.lock w.env).2 }) h _
  | setMode mode =>
    simp only [mdioServiceEdit, Mdio.serviceSetPolicy, hlocked, ofCode_code]
    exact editPhy_known (w := { w with env := (P.lock w.env).2 }) h _

theorem mdioServiceEdit_unknown {w : Mdio.MdioWorld ε} (hlock : (P.lock w.env).1 = .ok)
    (h : w.state.devices.items[d]? = none) (edit : Edit MdioRule) :
    mdioServiceEdit P d w edit = (.notFound,{ w with env := (P.lock w.env).2 }) := by
  have hlocked : ∀ f : Mdio.MdioWorld ε → Status × Mdio.MdioWorld ε,
      Mdio.locked P w id f = f { w with env := (P.lock w.env).2 } := fun f => if_neg (not_not.mpr hlock)
  have hle : w.state.devices.items.length ≤ d := List.getElem?_eq_none_iff.mp h
  cases edit with
  | add s rule => simp only [mdioServiceEdit, Mdio.serviceRuleAdd, hlocked, Mdio.editList, if_pos hle]
  | remove s rule => simp only [mdioServiceEdit, Mdio.serviceRuleRemove, hlocked, Mdio.editList, if_pos hle]
  | clear s => simp only [mdioServiceEdit, Mdio.serviceRuleClearList, hlocked, Mdio.editList, if_pos hle]
  | setMode mode =>
    simp only [mdioServiceEdit, Mdio.serviceSetPolicy, hlocked, ofCode_code]
    unfold Mdio.editPhy
    split
    · rfl
    · rename_i c hsome
      rw [h] at hsome
      cases hsome

theorem phyEdit_faithful (c : MdioPhyConfig) (edit : Edit MdioRule) :
    ((phyEdit c edit).1 = .ok → phyPolicy (phyEdit c edit).2 = (normalEdit edit).apply (phyPolicy c)) ∧
      ((phyEdit c edit).1 ≠ .ok → (phyEdit c edit).2 = c) := by
  cases edit with
  | add s rule =>
    simp only [phyEdit, Mdio.addRule]
    split_ifs with hrange hany hfull
    · simp
    · exact ⟨fun _ => (phyPolicy_present c s (any_same.mp hany)).symm,fun _ => rfl⟩
    · simp
    · refine ⟨fun _ => ?_,fun h => absurd rfl h⟩
      have happend := phyPolicy_append c s (normal rule)
      rw [normal_normal] at happend
      exact happend
  | remove s rule =>
    simp only [phyEdit, Mdio.removeRule]
    split_ifs with hrange hany
    · simp
    · simp
    · exact ⟨fun _ => phyPolicy_filter c s rule,fun h => absurd rfl h⟩
  | clear s => exact ⟨fun _ => phyPolicy_nil c s,fun h => absurd rfl h⟩
  | setMode mode => exact ⟨fun _ => phyPolicy_setPolicy c mode,fun h => absurd rfl h⟩

theorem mdioServiceEdit_faithful (w : Mdio.MdioWorld ε) (edit : Edit MdioRule) : (mdioServiceEditor P d).Faithful w edit := by
  have hstep : (mdioServiceEditor P d).step w edit =
      ((mdioServiceEdit P d w edit).2,decide ((mdioServiceEdit P d w edit).1 = .ok)) := rfl
  by_cases hlock : (P.lock w.env).1 = .ok
  · cases hdevice : w.state.devices.items[d]? with
    | none =>
      rw [mdioServiceEdit_unknown P hlock hdevice] at hstep
      exact (Editor.faithful_refused hstep).mpr rfl
    | some c =>
      obtain ⟨hstatus,hitems⟩ := mdioServiceEdit_known P hlock hdevice edit
      obtain ⟨hdone,hrefused⟩ := phyEdit_faithful c edit
      have hbefore : phyPolicyOf w.state d = phyPolicy c := by
        unfold phyPolicyOf
        rw [hdevice]
      have hafter : phyPolicyOf (mdioServiceEdit P d w edit).2.state d = phyPolicy (phyEdit c edit).2 := by
        unfold phyPolicyOf
        rw [hitems]
      rw [hstatus] at hstep
      by_cases hok : (phyEdit c edit).1 = .ok
      · rw [decide_eq_true hok] at hstep
        rw [Editor.faithful_acknowledged hstep rfl]
        exact hafter.trans ((hdone hok).trans (congrArg (normalEdit edit).apply hbefore.symm))
      · rw [decide_eq_false hok] at hstep
        rw [Editor.faithful_refused hstep]
        exact hafter.trans ((congrArg phyPolicy (hrefused hok)).trans hbefore.symm)
  · rw [mdioServiceEdit_refused P hlock, decide_eq_false hlock] at hstep
    exact (Editor.faithful_refused hstep).mpr rfl

end

/-- The decision of the service is that of the policy, for a configuration that passed the
check. -/
theorem mdioAllows_iff {c : MdioPhyConfig} (h : c.Valid) (reg : UInt8) (value : UInt16) :
    mdioPolicyAllows c reg value = true ↔ (phyPolicy c).Allows MdioHit (reg,value) := by
  obtain ⟨-,-,-,-,-,hmode,hallow,hdeny,-⟩ := h.shaped
  obtain ⟨mode,hcode⟩ := Option.ne_none_iff_exists'.mp hmode
  have hhits : ∀ rules : List MdioRule, (∃ r ∈ {q | q ∈ rules.map normal}, MdioHit r (reg,value)) ↔
      rules.any (·.matches reg value) = true := by
    intro rules
    simp only [List.any_eq_true, Set.mem_ofPred_eq, List.mem_map, exists_exists_and_eq_and, hit_normal]
    exact Iff.rfl
  unfold mdioPolicyAllows
  rw [hcode]
  unfold Policy.Allows phyPolicy
  simp only [hcode, Set.mem_ofPred_eq]
  by_cases hreg : reg < c.regCount
  · rw [if_neg (by simp [UInt8.not_le.mpr hreg, Nat.not_lt.mpr hallow, Nat.not_lt.mpr hdeny])]
    simp only [hreg, true_and]
    cases mode with
    | whitelist => exact (hhits c.whitelist).symm
    | blacklist =>
      have hnone := not_congr (hhits c.blacklist)
      rw [not_exists] at hnone
      simp only [not_and] at hnone
      rw [Bool.not_eq_true', Bool.eq_false_iff]
      exact hnone.symm
  · rw [if_pos (Or.inl (UInt8.not_lt.mp hreg))]
    simp [hreg]

end Bvstk.Console
