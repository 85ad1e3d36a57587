import Bvstk.Console.I2cEditors

/-! # Which edits of I2C rules are faithful

The service always is. The FreeRTOS console deletes one of several equal rules, and the
Neutrino runtime acknowledges a rule that it has no room for.
-/
namespace Bvstk.Console
open Config I2c RuleSets

/-! ## Policies of edited configurations -/

theorem configPolicy_setRulesOn (config : I2cFileConfig) (side : Side) (rules : List I2cRule) :
    configPolicy (setRulesOn config side rules) = (configPolicy config).setRules side {r | r ∈ rules} := by
  refine policy_ext ?_ ?_ ?_ ?_
  all_goals
    cases side with
    | allow => rfl
    | deny => rfl

theorem configPolicy_setMode (config : I2cFileConfig) (mode : Side) :
    configPolicy (setMode config mode) = { configPolicy config with mode := mode } := by
  refine policy_ext ?_ rfl rfl rfl
  cases mode with
  | allow => rfl
  | deny => rfl

theorem configPolicy_rules (config : I2cFileConfig) (side : Side) :
    (configPolicy config).rules side = {r | r ∈ rulesOn config side} := rfl

/-- The rule is in the set already. -/
theorem apply_add_of_mem {config : I2cFileConfig} {side : Side} {rule : I2cRule} (h : rule ∈ rulesOn config side) :
    (Edit.add side rule).apply (configPolicy config) = configPolicy config := by
  have hsame : insert rule ((configPolicy config).rules side) = (configPolicy config).rules side := Set.insert_eq_of_mem h
  rw [apply_add, hsame, setRules_eq]

theorem configPolicy_append (config : I2cFileConfig) (side : Side) (rule : I2cRule) :
    configPolicy (setRulesOn config side (rulesOn config side ++ [rule])) = (Edit.add side rule).apply (configPolicy config) := by
  rw [configPolicy_setRulesOn, apply_add, setRules_inj, configPolicy_rules]
  ext r
  simp [or_comm]

theorem configPolicy_filter (config : I2cFileConfig) (side : Side) (rule : I2cRule) :
    configPolicy (setRulesOn config side ((rulesOn config side).filter fun r => !decide (r = rule))) =
      (Edit.remove side rule).apply (configPolicy config) := by
  rw [configPolicy_setRulesOn, apply_remove, setRules_inj, configPolicy_rules]
  ext r
  simp

theorem configPolicy_nil (config : I2cFileConfig) (side : Side) :
    configPolicy (setRulesOn config side []) = (Edit.clear side).apply (configPolicy config) := by
  rw [configPolicy_setRulesOn, apply_clear, setRules_inj]
  simp

/-! ## The FreeRTOS console -/

theorem editRulesWords_error {config : I2cFileConfig} {words : List Word} {status : Status}
    (h : editRulesWords config words = .error status) : status ≠ .ok := by
  unfold editRulesWords at h
  split at h
  · split at h
    · cases h
      simp
    · split_ifs at h
      cases h
      simp
  · split at h
    · cases h
      simp
    · split at h
      · cases h
        simp
      · split at h
        · rename_i hreg
          cases h
          exact busShellNumber_error hreg
        · split at h
          · rename_i hvalue
            cases h
            exact busShellNumber_error hvalue
          · cases h
  · cases h
    simp

theorem cmdPolicyWords_error {config : I2cFileConfig} {words : List Word} {status : Status}
    (h : cmdPolicyWords config words = .error status) : status ≠ .ok := by
  unfold cmdPolicyWords at h
  split at h
  · split_ifs at h
    · split at h
      · cases h
        simp
      · cases h
    · exact editRulesWords_error h
  · exact editRulesWords_error h

/-- A deleted rule is not listed twice. -/
def DeletesSingle (config : I2cFileConfig) (words : List Word) : Prop :=
  ∀ side rule, cmdPolicyWords config words = .ok (.remove side rule) →
    ((rulesOn config side).countP fun r => decide (r = rule)) ≤ 1

theorem editRules_remove_iff {config : I2cFileConfig} {side : Side} {rule : I2cRule} :
    configPolicy (setRulesOn config side ((rulesOn config side).eraseP fun r => decide (r = rule))) =
        (Edit.remove side rule).apply (configPolicy config) ↔
      ((rulesOn config side).countP fun r => decide (r = rule)) ≤ 1 := by
  have herase := eraseP_erases_iff id rule (rulesOn config side)
  simp only [List.map_id, id_eq] at herase
  rw [configPolicy_setRulesOn]
  exact setRules_inj.trans herase

theorem cmdPolicy_faithful_iff (config : I2cFileConfig) (words : List Word) :
    i2cConsoleEditor.Faithful config words ↔ DeletesSingle config words := by
  have hstep : i2cConsoleEditor.step config words =
      ((cmdPolicy config words).2,decide ((cmdPolicy config words).1 = .ok)) := rfl
  unfold DeletesSingle
  unfold cmdPolicy at hstep
  cases hwords : cmdPolicyWords config words with
  | error status =>
    simp only [hwords, cmdPolicyWords_error hwords, decide_false] at hstep
    rw [Editor.faithful_refused hstep]
    simp
  | ok edit =>
    have hasks : i2cConsoleEditor.asks config words = some edit := by
      simp [i2cConsoleEditor, hwords, Except.toOption]
    simp only [hwords] at hstep
    cases edit with
    | add side rule =>
      simp only [editRules] at hstep
      split_ifs at hstep with hmem hfull
      · rw [Editor.faithful_acknowledged hstep hasks]
        simp [i2cConsoleEditor, apply_add_of_mem hmem]
      · rw [Editor.faithful_refused hstep]
        simp
      · rw [Editor.faithful_acknowledged hstep hasks]
        simp [i2cConsoleEditor, configPolicy_append]
    | remove side rule =>
      have hsingle : (∀ side' rule', (Except.ok (.remove side rule) : Except Status (Edit I2cRule)) = .ok (.remove side' rule') →
          ((rulesOn config side').countP fun r => decide (r = rule')) ≤ 1) ↔
          ((rulesOn config side).countP fun r => decide (r = rule)) ≤ 1 := by
        constructor
        · exact fun h => h side rule rfl
        · rintro h _ _ ⟨⟩
          exact h
      rw [hsingle]
      simp only [editRules] at hstep
      split_ifs at hstep with hmem
      · rw [Editor.faithful_acknowledged hstep hasks]
        exact editRules_remove_iff
      · have hnone : ((rulesOn config side).countP fun r => decide (r = rule)) = 0 := by
          rw [List.countP_eq_zero]
          intro r hr heq
          exact hmem (of_decide_eq_true heq ▸ hr)
        rw [Editor.faithful_refused hstep]
        simp [hnone]
    | clear side =>
      simp only [editRules, decide_true] at hstep
      rw [Editor.faithful_acknowledged hstep hasks]
      simp [i2cConsoleEditor, configPolicy_nil]
    | setMode mode =>
      simp only [editRules, decide_true] at hstep
      rw [Editor.faithful_acknowledged hstep hasks]
      simp [i2cConsoleEditor, configPolicy_setMode, apply_setMode]

/-! ## The Neutrino runtime -/

/-- An added rule is listed already, or there is room for it. -/
def AddsWithRoom (config : I2cFileConfig) (words : List Word) : Prop :=
  ∀ side rule, policyEditWords config words = some (.add side rule) →
    rule ∈ rulesOn config side ∨ (rulesOn config side).length < i2cRulesMax

theorem policyEdit_faithful_iff (config : I2cFileConfig) (words : List Word) :
    neutrinoEditor.Faithful config words ↔ AddsWithRoom config words := by
  have hstep : neutrinoEditor.step config words =
      ((policyEdit config words).getD config,(policyEdit config words).isSome) := rfl
  unfold AddsWithRoom
  unfold policyEdit at hstep
  cases hwords : policyEditWords config words with
  | none =>
    simp only [hwords, Option.map_none, Option.getD_none, Option.isSome_none] at hstep
    rw [Editor.faithful_refused hstep]
    simp
  | some edit =>
    have hasks : neutrinoEditor.asks config words = some edit := hwords
    simp only [hwords, Option.map_some, Option.getD_some, Option.isSome_some] at hstep
    rw [Editor.faithful_acknowledged hstep hasks]
    cases edit with
    | add side rule =>
      have hroom : (∀ side' rule', some (.add side rule) = some (Edit.add side' rule') →
          rule' ∈ rulesOn config side' ∨ (rulesOn config side').length < i2cRulesMax) ↔
          rule ∈ rulesOn config side ∨ (rulesOn config side).length < i2cRulesMax := by
        constructor
        · exact fun h => h side rule rfl
        · rintro h _ _ ⟨⟩
          exact h
      rw [hroom]
      simp only [neutrinoEditor, policyEditRules]
      split_ifs with hadds
      · simp [configPolicy_append, hadds.2]
      · constructor
        · intro h
          left
          have hin := congrArg (fun p => p.rules side) h
          rw [apply_add, setRules_self] at hin
          have hmem : rule ∈ insert rule ((configPolicy config).rules side) := Set.mem_insert ..
          rw [← hin] at hmem
          exact hmem
        · intro h
          have hmem : rule ∈ rulesOn config side := by
            by_contra hnot
            exact hadds ⟨hnot,h.resolve_left hnot⟩
          exact (apply_add_of_mem hmem).symm
    | remove side rule => simp [neutrinoEditor, policyEditRules, configPolicy_filter]
    | clear side => simp [neutrinoEditor, policyEditRules, configPolicy_nil]
    | setMode mode => simp [neutrinoEditor, policyEditRules, configPolicy_setMode, apply_setMode]

/-! ## The service -/

section
variable {ε : Type} {w : I2cWorld ε} {deviceId : ℕ} {device : I2cDevice} {entry : I2cPolicyEntry}

/-- An edit of the entry of a known device. -/
theorem setPolicy_edit (hentry : w.state.policy.items[deviceId]? = some entry)
    {f : I2cPolicyEntry → Status × I2cPolicyEntry} {out : Status × I2cPolicyEntry} (hout : f entry = out) :
    (setPolicy w (w.state.policy.edit deviceId f) (edit_length _ _ _)).1 = out.1 ∧
      (setPolicy w (w.state.policy.edit deviceId f) (edit_length _ _ _)).2.state.devices = w.state.devices ∧
      (setPolicy w (w.state.policy.edit deviceId f) (edit_length _ _ _)).2.state.policy.items[deviceId]? = some out.2 := by
  have hlt : deviceId < w.state.policy.items.length := (List.getElem?_eq_some_iff.mp hentry).1
  have hedit : w.state.policy.edit deviceId f = (out.1,⟨w.state.policy.items.set deviceId out.2⟩) := by
    unfold I2cPolicy.edit
    rw [hentry]
    dsimp only
    rw [hout]
  unfold setPolicy
  simp only [hedit, List.getElem?_set_self hlt, true_and]

theorem livePolicy_known (hdevice : w.state.devices.items[deviceId]? = some device)
    (hentry : w.state.policy.items[deviceId]? = some entry) : livePolicy w.state deviceId = entryPolicy entry device := by
  unfold livePolicy
  rw [hdevice, hentry]

/-- What an edit of the service does to an entry. -/
def entryEdit (device : I2cDevice) (entry : I2cPolicyEntry) : Edit I2cRule → Status × I2cPolicyEntry
  | .add .allow rule =>
    if ruleValid device rule.reg rule.val = false then (.range,entry)
    else ((addRule entry.whitelist rule.reg rule.val).1,{ entry with whitelist := (addRule entry.whitelist rule.reg rule.val).2 })
  | .add .deny rule =>
    if ruleValid device rule.reg rule.val = false then (.range,entry)
    else ((addRule entry.blacklist rule.reg rule.val).1,{ entry with blacklist := (addRule entry.blacklist rule.reg rule.val).2 })
  | .remove .allow rule =>
    if device.regCount ≤ rule.reg.toNat ∨ device.maxValueCode < rule.val then (.range,entry)
    else if ruleContains entry.whitelist rule.reg rule.val = false then (.notFound,entry)
    else (.ok,{ entry with whitelist := removeRule entry.whitelist rule.reg rule.val })
  | .remove .deny rule =>
    if device.regCount ≤ rule.reg.toNat ∨ device.maxValueCode < rule.val then (.range,entry)
    else if ruleContains entry.blacklist rule.reg rule.val = false then (.notFound,entry)
    else (.ok,{ entry with blacklist := removeRule entry.blacklist rule.reg rule.val })
  | .clear .allow => (.ok,{ entry with whitelist := [] })
  | .clear .deny => (.ok,{ entry with blacklist := [] })
  | .setMode mode => (.ok,{ entry with mode := modeOf mode })

theorem serviceEdit_known (hdevice : w.state.devices.items[deviceId]? = some device)
    (hentry : w.state.policy.items[deviceId]? = some entry) (edit : Edit I2cRule) :
    (serviceEdit deviceId w edit).1 = (entryEdit device entry edit).1 ∧
      (serviceEdit deviceId w edit).2.state.devices = w.state.devices ∧
      (serviceEdit deviceId w edit).2.state.policy.items[deviceId]? = some (entryEdit device entry edit).2 := by
  have hget : devicesGet w.state.devices deviceId = .ok device := by
    unfold devicesGet
    rw [hdevice]
  have hlt : ¬w.state.devices.count ≤ deviceId := Nat.not_le.mpr (List.getElem?_eq_some_iff.mp hdevice).1
  cases edit with
  | add side rule =>
    cases side with
    | allow =>
      simp only [serviceEdit, masterServiceRuleAllow, hget]
      exact setPolicy_edit hentry rfl
    | deny =>
      simp only [serviceEdit, masterServiceRuleDeny, hget]
      exact setPolicy_edit hentry rfl
  | remove side rule =>
    simp only [serviceEdit, masterServiceRuleRemove, hget, ofCode_code, reduceCtorEq, if_false]
    cases side with
    | allow =>
      simp only [entryEdit]
      split_ifs with hrange hnone
      · exact ⟨rfl,rfl,hentry⟩
      · exact setPolicy_edit hentry (by simp [modeOf, hnone])
      · exact setPolicy_edit hentry (by simp [modeOf, hnone])
    | deny =>
      simp only [entryEdit]
      split_ifs with hrange hnone
      · exact ⟨rfl,rfl,hentry⟩
      · exact setPolicy_edit hentry (by simp [modeOf, hnone])
      · exact setPolicy_edit hentry (by simp [modeOf, hnone])
  | clear side =>
    simp only [serviceEdit, masterServiceRuleClearList, if_neg hlt]
    cases side with
    | allow => exact setPolicy_edit hentry (by simp [modeOf, entryEdit])
    | deny => exact setPolicy_edit hentry (by simp [modeOf, entryEdit])
  | setMode mode =>
    simp only [serviceEdit, masterServiceSetPolicy, if_neg hlt]
    exact setPolicy_edit hentry (by simp [entryEdit])

/-- No operation does anything for a device that is not there. -/
theorem serviceEdit_unknown (hdevice : w.state.devices.items[deviceId]? = none) (edit : Edit I2cRule) :
    serviceEdit deviceId w edit = (.notFound,w) := by
  have hget : devicesGet w.state.devices deviceId = .error .notFound := by
    unfold devicesGet
    rw [hdevice]
  have hle : w.state.devices.count ≤ deviceId := List.getElem?_eq_none_iff.mp hdevice
  cases edit with
  | add side rule =>
    cases side with
    | allow => simp only [serviceEdit, masterServiceRuleAllow, hget]
    | deny => simp only [serviceEdit, masterServiceRuleDeny, hget]
  | remove side rule => simp only [serviceEdit, masterServiceRuleRemove, hget]
  | clear side => simp only [serviceEdit, masterServiceRuleClearList, if_pos hle]
  | setMode mode => simp only [serviceEdit, masterServiceSetPolicy, if_pos hle]

/-! ## Entries -/

/-- A list with one rule more, if it is new and there is room. -/
theorem addRule_cases (rules : List I2cRule) (reg value : UInt8) :
    (addRule rules reg value = (.ok,rules) ∧ (⟨reg,value⟩ : I2cRule) ∈ rules) ∨ addRule rules reg value = (.range,rules) ∨
      (addRule rules reg value = (.ok,rules ++ [⟨reg,value⟩]) ∧ rules.length < i2cRulesMax) := by
  unfold addRule
  split_ifs with hmem hfull
  · exact Or.inl ⟨rfl,ruleContains_iff.mp hmem⟩
  · exact Or.inr (Or.inl rfl)
  · exact Or.inr (Or.inr ⟨rfl,Nat.not_le.mp hfull⟩)

theorem mem_removeRule {rules : List I2cRule} {reg value : UInt8} {r : I2cRule} :
    r ∈ removeRule rules reg value ↔ r ∈ rules ∧ r ≠ ⟨reg,value⟩ := by
  obtain ⟨reg',value'⟩ := r
  simp [removeRule, imp_iff_not_or]

theorem entryPolicy_whitelist (entry : I2cPolicyEntry) (device : I2cDevice) (rules : List I2cRule) :
    entryPolicy { entry with whitelist := rules } device = (entryPolicy entry device).setRules .allow {r | r ∈ rules} :=
  policy_ext rfl rfl rfl rfl

theorem entryPolicy_blacklist (entry : I2cPolicyEntry) (device : I2cDevice) (rules : List I2cRule) :
    entryPolicy { entry with blacklist := rules } device = (entryPolicy entry device).setRules .deny {r | r ∈ rules} :=
  policy_ext rfl rfl rfl rfl

/-- A list that an operation acknowledges has exactly the rules asked for. -/
theorem addRule_set {rules : List I2cRule} {reg value : UInt8} (h : (addRule rules reg value).1 = .ok) :
    {r | r ∈ (addRule rules reg value).2} = insert ⟨reg,value⟩ {r | r ∈ rules} := by
  rcases addRule_cases rules reg value with ⟨hadd,hmem⟩ | hadd | ⟨hadd,-⟩
  · rw [hadd, Set.insert_eq_of_mem (by exact hmem)]
  · rw [hadd] at h
    cases h
  · rw [hadd]
    ext r
    simp [or_comm]

theorem addRule_refused {rules : List I2cRule} {reg value : UInt8} (h : (addRule rules reg value).1 ≠ .ok) :
    (addRule rules reg value).2 = rules := by
  rcases addRule_cases rules reg value with ⟨hadd,-⟩ | hadd | ⟨hadd,-⟩
  · rw [hadd]
  · rw [hadd]
  · rw [hadd] at h
    exact absurd rfl h

theorem removeRule_set (rules : List I2cRule) (reg value : UInt8) :
    {r | r ∈ removeRule rules reg value} = {r | r ∈ rules} \ {⟨reg,value⟩} := by
  ext r
  exact mem_removeRule

theorem entryEdit_faithful (device : I2cDevice) (entry : I2cPolicyEntry) (edit : Edit I2cRule) :
    ((entryEdit device entry edit).1 = .ok →
        entryPolicy (entryEdit device entry edit).2 device = edit.apply (entryPolicy entry device)) ∧
      ((entryEdit device entry edit).1 ≠ .ok → (entryEdit device entry edit).2 = entry) := by
  cases edit with
  | add side rule =>
    cases side with
    | allow =>
      simp only [entryEdit]
      split_ifs
      · simp
      · refine ⟨fun h => ?_,fun h => ?_⟩
        · rw [entryPolicy_whitelist, addRule_set h]
          rfl
        · rw [addRule_refused h]
    | deny =>
      simp only [entryEdit]
      split_ifs
      · simp
      · refine ⟨fun h => ?_,fun h => ?_⟩
        · rw [entryPolicy_blacklist, addRule_set h]
          rfl
        · rw [addRule_refused h]
  | remove side rule =>
    cases side with
    | allow =>
      simp only [entryEdit]
      split_ifs
      · simp
      · simp
      · refine ⟨fun _ => ?_,fun h => absurd rfl h⟩
        rw [entryPolicy_whitelist, removeRule_set]
        rfl
    | deny =>
      simp only [entryEdit]
      split_ifs
      · simp
      · simp
      · refine ⟨fun _ => ?_,fun h => absurd rfl h⟩
        rw [entryPolicy_blacklist, removeRule_set]
        rfl
  | clear side =>
    cases side with
    | allow => exact ⟨fun _ => by rw [entryEdit, entryPolicy_whitelist, apply_clear]; simp,fun h => absurd rfl h⟩
    | deny => exact ⟨fun _ => by rw [entryEdit, entryPolicy_blacklist, apply_clear]; simp,fun h => absurd rfl h⟩
  | setMode mode =>
    refine ⟨fun _ => policy_ext ?_ rfl rfl rfl,fun h => absurd rfl h⟩
    exact sideOf_modeOf mode

theorem serviceEdit_faithful (w : I2cWorld ε) (edit : Edit I2cRule) : (i2cServiceEditor ε deviceId).Faithful w edit := by
  have hstep : (i2cServiceEditor ε deviceId).step w edit =
      ((serviceEdit deviceId w edit).2,decide ((serviceEdit deviceId w edit).1 = .ok)) := rfl
  cases hdevice : w.state.devices.items[deviceId]? with
  | none =>
    rw [serviceEdit_unknown hdevice] at hstep
    exact (Editor.faithful_refused hstep).mpr rfl
  | some device =>
    obtain ⟨entry,hentry⟩ : ∃ entry, w.state.policy.items[deviceId]? = some entry :=
      ⟨_,List.getElem?_eq_getElem (w.state.policySize.symm ▸ (List.getElem?_eq_some_iff.mp hdevice).1)⟩
    obtain ⟨hstatus,hdevices,hitems⟩ := serviceEdit_known hdevice hentry edit
    have hlive : livePolicy (serviceEdit deviceId w edit).2.state deviceId = entryPolicy (entryEdit device entry edit).2 device :=
      livePolicy_known (by rwa [hdevices]) hitems
    obtain ⟨hdone,hrefused⟩ := entryEdit_faithful device entry edit
    rw [hstatus] at hstep
    by_cases hok : (entryEdit device entry edit).1 = .ok
    · rw [decide_eq_true hok] at hstep
      rw [Editor.faithful_acknowledged hstep rfl]
      exact hlive.trans ((hdone hok).trans (congrArg edit.apply (livePolicy_known hdevice hentry).symm))
    · rw [decide_eq_false hok] at hstep
      rw [Editor.faithful_refused hstep]
      exact hlive.trans ((congrArg (entryPolicy · device) (hrefused hok)).trans (livePolicy_known hdevice hentry).symm)

/-! ## Decisions and lengths -/

/-- The lists of the entry of a device fit. -/
def LiveFits (deviceId : ℕ) (w : I2cWorld ε) : Prop :=
  ∀ entry, w.state.policy.items[deviceId]? = some entry →
    entry.whitelist.length ≤ i2cRulesMax ∧ entry.blacklist.length ≤ i2cRulesMax

theorem length_addRule {rules : List I2cRule} (h : rules.length ≤ i2cRulesMax) (reg value : UInt8) :
    (addRule rules reg value).2.length ≤ i2cRulesMax := by
  rcases addRule_cases rules reg value with ⟨hadd,-⟩ | hadd | ⟨hadd,hroom⟩
  · rwa [hadd]
  · rwa [hadd]
  · rw [hadd, List.length_append]
    exact hroom

theorem length_removeRule {rules : List I2cRule} (h : rules.length ≤ i2cRulesMax) (reg value : UInt8) :
    (removeRule rules reg value).length ≤ i2cRulesMax := (List.length_filter_le _ _).trans h

theorem entryEdit_fits {device : I2cDevice} (hallow : entry.whitelist.length ≤ i2cRulesMax)
    (hdeny : entry.blacklist.length ≤ i2cRulesMax) (edit : Edit I2cRule) :
    (entryEdit device entry edit).2.whitelist.length ≤ i2cRulesMax ∧
      (entryEdit device entry edit).2.blacklist.length ≤ i2cRulesMax := by
  cases edit with
  | add side rule =>
    cases side with
    | allow =>
      simp only [entryEdit]
      split_ifs
      · exact ⟨hallow,hdeny⟩
      · exact ⟨length_addRule hallow _ _,hdeny⟩
    | deny =>
      simp only [entryEdit]
      split_ifs
      · exact ⟨hallow,hdeny⟩
      · exact ⟨hallow,length_addRule hdeny _ _⟩
  | remove side rule =>
    cases side with
    | allow =>
      simp only [entryEdit]
      split_ifs
      · exact ⟨hallow,hdeny⟩
      · exact ⟨hallow,hdeny⟩
      · exact ⟨length_removeRule hallow _ _,hdeny⟩
    | deny =>
      simp only [entryEdit]
      split_ifs
      · exact ⟨hallow,hdeny⟩
      · exact ⟨hallow,hdeny⟩
      · exact ⟨hallow,length_removeRule hdeny _ _⟩
  | clear side =>
    cases side with
    | allow => exact ⟨Nat.zero_le _,hdeny⟩
    | deny => exact ⟨hallow,Nat.zero_le _⟩
  | setMode mode => exact ⟨hallow,hdeny⟩

theorem serviceEdit_fits (w : I2cWorld ε) (edit : Edit I2cRule) (h : LiveFits deviceId w) :
    LiveFits deviceId (serviceEdit deviceId w edit).2 := by
  cases hdevice : w.state.devices.items[deviceId]? with
  | none =>
    rw [serviceEdit_unknown hdevice]
    exact h
  | some device =>
    obtain ⟨entry,hentry⟩ : ∃ entry, w.state.policy.items[deviceId]? = some entry :=
      ⟨_,List.getElem?_eq_getElem (w.state.policySize.symm ▸ (List.getElem?_eq_some_iff.mp hdevice).1)⟩
    obtain ⟨-,-,hitems⟩ := serviceEdit_known hdevice hentry edit
    intro entry' hentry'
    rw [hitems, Option.some.injEq] at hentry'
    subst hentry'
    obtain ⟨hallow,hdeny⟩ := h entry hentry
    exact entryEdit_fits hallow hdeny edit

/-- The decision of the service is that of the policy in force. -/
theorem permits_iff_allows (hdevice : w.state.devices.items[deviceId]? = some device) (reg value : UInt8) :
    policyPermits w.state.policy deviceId device reg value = true ↔
      (livePolicy w.state deviceId).Allows I2cHit (reg,value) := by
  obtain ⟨entry,hentry⟩ : ∃ entry, w.state.policy.items[deviceId]? = some entry :=
    ⟨_,List.getElem?_eq_getElem (w.state.policySize.symm ▸ (List.getElem?_eq_some_iff.mp hdevice).1)⟩
  rw [policyPermits_iff, livePolicy_known hdevice hentry, hentry]
  simp only [Option.some.injEq, exists_eq_left', Policy.Allows, entryPolicy, deviceRange, I2cHit, I2cPolicyEntry.Permits]
  rw [← and_assoc]
  refine and_congr Iff.rfl ?_
  cases entry.mode with
  | whitelist => simp [sideOf]
  | blacklist =>
    simp only [sideOf, Set.mem_ofPred_eq]
    exact ⟨fun h r hr heq => h (heq ▸ hr),fun h hmem => h _ hmem rfl⟩

/-- A configuration that passes the check is taken over, with the policy that it asks for. -/
theorem setConfig_valid {config : I2cFileConfig} (hvalid : config.Valid)
    (hdevice : w.state.devices.items[deviceId]? = some device) :
    (masterServiceSetConfig w deviceId config.toI2cDeviceConfig).1 = .ok ∧
      (masterServiceSetConfig w deviceId config.toI2cDeviceConfig).2.state.devices.items =
        w.state.devices.items.set deviceId (deviceOf config.toI2cDeviceConfig) ∧
      livePolicy (masterServiceSetConfig w deviceId config.toI2cDeviceConfig).2.state deviceId = configPolicy config := by
  obtain ⟨hname,hlen,haddr,hzero,hmax,-,hmode,hallow,hdeny,-⟩ := hvalid.shaped
  have hpassed : ¬configRefused config.toI2cDeviceConfig := by
    rw [configRefused, not_or, not_or, not_or]
    exact ⟨hname,hzero,Nat.not_lt.mpr hmax,UInt8.not_lt.mpr haddr⟩
  obtain ⟨mode,hcode⟩ := Option.ne_none_iff_exists'.mp hmode
  have hentry : policyEntryOf config.toI2cDeviceConfig = some ⟨mode,config.whitelist,config.blacklist⟩ := by
    unfold policyEntryOf
    rw [hcode]
    exact if_neg (by rw [not_or]; exact ⟨Nat.not_lt.mpr hallow,Nat.not_lt.mpr hdeny⟩)
  obtain ⟨w₂,hout,hitems,hpolicy,-⟩ := setConfig_passed hdevice hpassed
  have hlt : deviceId < w.state.devices.items.length := (List.getElem?_eq_some_iff.mp hdevice).1
  have hlt₂ : deviceId < w₂.state.devices.count := by
    rw [I2cDevices.count, hitems, List.length_set]
    exact hlt
  obtain ⟨hok,hdevices,-,-,hentries⟩ := applyPolicyConfig_some hlt₂ hentry
  rw [hout]
  refine ⟨hok,by rw [hdevices, hitems],?_⟩
  have hpos : deviceId < w₂.state.policy.items.length := by
    rw [w₂.state.policySize]
    exact hlt₂
  unfold livePolicy
  rw [hdevices, hitems, List.getElem?_set_self hlt, hentries, List.getElem?_set_self hpos]
  refine policy_ext ?_ rfl rfl rfl
  simp only [entryPolicy, configPolicy, hcode]

end

/-! ## Edited configurations stay valid -/

section
variable {config : I2cFileConfig}

theorem valid_rulesOn (h : config.Valid) (side : Side) : (rulesOn config side).length ≤ i2cRulesMax ∧
    ∀ r ∈ rulesOn config side, r.reg.toNat < config.regCount ∧ r.val ≤ config.maxValueCode := by
  obtain ⟨-,-,-,-,-,-,-,hallow,hdeny,-⟩ := h.shaped
  cases side with
  | allow => exact ⟨hallow,h.whitelist⟩
  | deny => exact ⟨hdeny,h.blacklist⟩

theorem valid_setRulesOn (h : config.Valid) (side : Side) {rules : List I2cRule} (hlen : rules.length ≤ i2cRulesMax)
    (hrules : ∀ r ∈ rules, r.reg.toNat < config.regCount ∧ r.val ≤ config.maxValueCode) :
    (setRulesOn config side rules).Valid := by
  obtain ⟨hname,hshort,haddr,hzero,hmax,hvalue,hmode,hallow,hdeny,hsettings⟩ := h.shaped
  cases side with
  | allow =>
    exact ⟨⟨hname,hshort,haddr,hzero,hmax,hvalue,hmode,hlen,hdeny,hsettings⟩,hrules,h.blacklist,h.settings,h.profile⟩
  | deny =>
    exact ⟨⟨hname,hshort,haddr,hzero,hmax,hvalue,hmode,hallow,hlen,hsettings⟩,h.whitelist,hrules,h.settings,h.profile⟩

theorem valid_setMode (h : config.Valid) (mode : Side) : (setMode config mode).Valid := by
  obtain ⟨hname,hshort,haddr,hzero,hmax,hvalue,-,hrest⟩ := h.shaped
  refine ⟨⟨hname,hshort,haddr,hzero,hmax,hvalue,?_,hrest⟩,h.whitelist,h.blacklist,h.settings,h.profile⟩
  rw [setMode, ofCode_code]
  exact Option.some_ne_none _

/-- A rule that can be added: the device has such a register and value. -/
def InRange (config : I2cFileConfig) (rule : I2cRule) : Prop :=
  rule.reg.toNat < config.regCount ∧ rule.val ≤ config.maxValueCode

theorem valid_append (h : config.Valid) (side : Side) {rule : I2cRule} (hrule : InRange config rule)
    (hroom : (rulesOn config side).length < i2cRulesMax) :
    (setRulesOn config side (rulesOn config side ++ [rule])).Valid := by
  obtain ⟨-,hrules⟩ := valid_rulesOn h side
  refine valid_setRulesOn h side (by rw [List.length_append]; exact hroom) fun r hr => ?_
  rcases List.mem_append.mp hr with hr | hr
  · exact hrules r hr
  · exact List.mem_singleton.mp hr ▸ hrule

theorem valid_sublist (h : config.Valid) (side : Side) {rules : List I2cRule}
    (hsub : rules.Sublist (rulesOn config side)) : (setRulesOn config side rules).Valid := by
  obtain ⟨hlen,hrules⟩ := valid_rulesOn h side
  exact valid_setRulesOn h side (hsub.length_le.trans hlen) fun r hr => hrules r (hsub.subset hr)

theorem inRange_of_numbers {reg value : ℕ} (hreg : reg < config.regCount) (hmax : config.regCount ≤ i2cMaxRegCount)
    (hvalue : value ≤ config.maxValueCode.toNat) : InRange config ⟨UInt8.ofNat reg,UInt8.ofNat value⟩ := by
  have hbyte : value < 256 := Nat.lt_of_le_of_lt hvalue config.maxValueCode.toNat_lt
  have hreg' : reg < 256 := Nat.lt_of_lt_of_le hreg hmax
  refine ⟨by rwa [UInt8.toNat_ofNat_of_lt' hreg'],?_⟩
  rw [UInt8.le_iff_toNat_le, UInt8.toNat_ofNat_of_lt' hbyte]
  exact hvalue

theorem editRulesWords_inRange (h : config.Valid) {words : List Word} {side : Side} {rule : I2cRule}
    (hwords : editRulesWords config words = .ok (.add side rule)) : InRange config rule := by
  obtain ⟨-,-,-,hzero,hmax,-⟩ := h.shaped
  unfold editRulesWords at hwords
  split at hwords
  · split at hwords
    · cases hwords
    · split_ifs at hwords
      cases hwords
  · split at hwords
    · cases hwords
    · split at hwords
      · cases hwords
      · split at hwords
        · cases hwords
        · rename_i reg hreg
          split at hwords
          · cases hwords
          · rename_i value hvalue
            dsimp only at hwords
            split_ifs at hwords
            · cases hwords
              have hle := busShellNumber_le hreg
              exact inRange_of_numbers (by omega) hmax (busShellNumber_le hvalue)
            · cases hwords
  · cases hwords

theorem cmdPolicyWords_inRange (h : config.Valid) {words : List Word} {side : Side} {rule : I2cRule}
    (hwords : cmdPolicyWords config words = .ok (.add side rule)) : InRange config rule := by
  unfold cmdPolicyWords at hwords
  split at hwords
  · split_ifs at hwords
    · split at hwords
      · cases hwords
      · cases hwords
    · exact editRulesWords_inRange h hwords
  · exact editRulesWords_inRange h hwords

theorem cmdPolicy_valid (h : config.Valid) (words : List Word) : (cmdPolicy config words).2.Valid := by
  unfold cmdPolicy
  split
  · exact h
  · rename_i edit hwords
    cases edit with
    | add side rule =>
      simp only [editRules]
      split_ifs with hmem hfull
      · exact h
      · exact h
      · have hlen := (valid_rulesOn h side).1
        exact valid_append h side (cmdPolicyWords_inRange h hwords) (by omega)
    | remove side rule =>
      simp only [editRules]
      split_ifs
      · exact valid_sublist h side (List.eraseP_sublist ..)
      · exact h
    | clear side => exact valid_sublist h side (List.nil_sublist _)
    | setMode mode => exact valid_setMode h mode

theorem policyEditWords_inRange (h : config.Valid) {words : List Word} {side : Side} {rule : I2cRule}
    (hwords : policyEditWords config words = some (.add side rule)) : InRange config rule := by
  obtain ⟨-,-,-,-,hmax,-⟩ := h.shaped
  unfold policyEditWords at hwords
  split at hwords
  · split at hwords
    · obtain ⟨mode,-,hmode⟩ := Option.map_eq_some_iff.mp hwords
      cases hmode
    · split at hwords
      · cases hwords
      · split at hwords
        all_goals cases hwords
  · split at hwords
    · cases hwords
    · split at hwords
      · cases hwords
      · split at hwords
        · dsimp only at hwords
          split at hwords
          · cases hwords
          · rename_i hrange
            rw [not_or] at hrange
            split_ifs at hwords
            · cases hwords
              exact inRange_of_numbers (Nat.not_le.mp hrange.1) hmax (Nat.not_lt.mp hrange.2)
            · cases hwords
        · cases hwords
  · cases hwords

theorem policyEdit_valid (h : config.Valid) (words : List Word) : ((policyEdit config words).getD config).Valid := by
  unfold policyEdit
  cases hwords : policyEditWords config words with
  | none => exact h
  | some edit =>
    simp only [Option.map_some, Option.getD_some]
    cases edit with
    | add side rule =>
      simp only [policyEditRules]
      split_ifs with hroom
      · exact valid_append h side (policyEditWords_inRange h hwords) hroom.2
      · exact h
    | remove side rule => exact valid_sublist h side (List.filter_sublist ..)
    | clear side => exact valid_sublist h side (List.nil_sublist _)
    | setMode mode => exact valid_setMode h mode

end

end Bvstk.Console
