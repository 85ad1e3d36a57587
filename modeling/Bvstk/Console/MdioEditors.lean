import Bvstk.Console.I2cEditors
import Bvstk.Mdio.Service

/-! # Editors of MDIO rules

The operations of the service and `edit_policy` of the console. A rule looks at the bits of
its mask only; rules are the same when they agree on those.
-/
namespace Bvstk.Console
open Config RuleSets CallLog

/-- A rule without the bits that its mask hides. -/
def normal (r : MdioRule) : MdioRule := ⟨r.reg,r.val &&& r.mask,r.mask⟩

def side (c : MdioPhyConfig) : Side → List MdioRule := fun s => c.rules (modeOf s)

/-! ## The console -/

def isDelete (action : Word) : Bool := sameIgnoringCase action wordDel || sameIgnoringCase action wordDelete

/-- The value and the mask of a rule. -/
def maskedValue (value : Word) (mask : Option Word) : Except Status (ℕ × ℕ) :=
  if value = wordAny then
    match mask with
    | none => .ok (0,0)
    | some _ => .error .malformed
  else
    match busShellNumber value 65535 with
    | .error status => .error status
    | .ok value =>
      match mask with
      | none => .ok (value,65535)
      | some mask =>
        match busShellNumber mask 65535 with
        | .error status => .error status
        | .ok mask => .ok (value,mask)

/-- The rule of an `add` or a `del`. -/
def ruleWords (c : MdioPhyConfig) (list action reg value : Word) (mask : Option Word) : Except Status (Edit MdioRule) :=
  match listOf list with
  | none => .error .malformed
  | some list =>
    if !sameIgnoringCase action wordAdd && !isDelete action then .error .malformed
    else
      match busShellNumber reg (c.regCount.toNat - 1) with
      | .error status => .error status
      | .ok reg =>
        match maskedValue value mask with
        | .error status => .error status
        | .ok (value,mask) =>
          let rule := normal ⟨UInt8.ofNat reg,UInt16.ofNat value,UInt16.ofNat mask⟩
          .ok (if sameIgnoringCase action wordAdd then .add (sideOf list) rule else .remove (sideOf list) rule)

/-- The words of `edit_policy`. -/
def editPolicyWords (c : MdioPhyConfig) : List Word → Except Status (Edit MdioRule)
  | [word,mode] =>
    if sameIgnoringCase word wordSet then
      match listOf mode with
      | none => .error .malformed
      | some mode => .ok (.setMode (sideOf mode))
    else
      match listOf word with
      | none => .error .malformed
      | some list => if sameIgnoringCase mode wordClear then .ok (.clear (sideOf list)) else .error .malformed
  | [list,action,reg,value] => ruleWords c list action reg value none
  | [list,action,reg,value,mask] => ruleWords c list action reg value (some mask)
  | _ => .error .malformed

/-- The edit that `edit_policy` makes. Only the first rule that is the same is deleted. -/
def editPolicyRules (c : MdioPhyConfig) : Edit MdioRule → Status × MdioPhyConfig
  | .add s rule =>
    if (side c s).any (·.same rule.reg rule.val rule.mask) then (.ok,c)
    else if (side c s).length = mdioRulesMax then (.range,c)
    else (.ok,c.setRules (modeOf s) (side c s ++ [rule]))
  | .remove s rule =>
    if (side c s).any (·.same rule.reg rule.val rule.mask) then
      (.ok,c.setRules (modeOf s) ((side c s).eraseP (·.same rule.reg rule.val rule.mask)))
    else (.notFound,c)
  | .clear s => (.ok,c.setRules (modeOf s) [])
  | .setMode mode => (.ok,c.setPolicy (modeOf mode))

/-- `edit_policy`. -/
def editPolicy (c : MdioPhyConfig) (words : List Word) : Status × MdioPhyConfig :=
  match editPolicyWords c words with
  | .error status => (status,c)
  | .ok edit => editPolicyRules c edit

/-! ## The service -/

section
variable {ε : Type} (P : Mdio.MdioPlatform ε)

def mdioServiceEdit (d : ℕ) (w : Mdio.MdioWorld ε) : Edit MdioRule → Status × Mdio.MdioWorld ε
  | .add s rule => Mdio.serviceRuleAdd P w d (modeOf s).code rule.reg rule.val rule.mask
  | .remove s rule => Mdio.serviceRuleRemove P w d (modeOf s).code rule.reg rule.val rule.mask
  | .clear s => Mdio.serviceRuleClearList P w d (modeOf s).code
  | .setMode mode => Mdio.serviceSetPolicy P w d (modeOf mode).code

/-- The edit with a normal rule. -/
def normalEdit : Edit MdioRule → Edit MdioRule
  | .add s rule => .add s (normal rule)
  | .remove s rule => .remove s (normal rule)
  | .clear s => .clear s
  | .setMode mode => .setMode mode

end

/-! ## What they stand for -/

abbrev MdioRequest := UInt8 × UInt16

def MdioHit (rule : MdioRule) (x : MdioRequest) : Prop := rule.matches x.1 x.2 = true

def phyPolicy (c : MdioPhyConfig) : Policy MdioRule MdioRequest where
  mode := match PolicyMode.ofCode c.policy with | some mode => sideOf mode | none => .allow
  rules s := {q | q ∈ (side c s).map normal}
  range := {x | x.1 < c.regCount}

def phyPolicyOf (s : Mdio.MdioState) (d : ℕ) : Policy MdioRule MdioRequest :=
  match s.devices.items[d]? with
  | none => ⟨.allow,fun _ => ∅,∅⟩
  | some c => phyPolicy c

def mdioServiceEditor {ε : Type} (P : Mdio.MdioPlatform ε) (d : ℕ) :
    Editor (Mdio.MdioWorld ε) (Edit MdioRule) MdioRule MdioRequest where
  step w edit := ((mdioServiceEdit P d w edit).2,decide ((mdioServiceEdit P d w edit).1 = .ok))
  asks _ edit := some (normalEdit edit)
  policy w := phyPolicyOf w.state d

def mdioConsoleEditor : Editor MdioPhyConfig (List Word) MdioRule MdioRequest where
  step c words := ((editPolicy c words).2,decide ((editPolicy c words).1 = .ok))
  asks c words := (editPolicyWords c words).toOption
  policy := phyPolicy

/-! ## Rules that are the same -/

theorem same_iff {r : MdioRule} {reg : UInt8} {value mask : UInt16} :
    r.same reg value mask = true ↔ normal r = ⟨reg,value &&& mask,mask⟩ := by
  obtain ⟨reg',val',mask'⟩ := r
  simp only [MdioRule.same, normal, Bool.and_eq_true, beq_iff_eq, MdioRule.mk.injEq]
  constructor
  · rintro ⟨⟨rfl,rfl⟩,hval⟩
    exact ⟨rfl,hval,rfl⟩
  · rintro ⟨rfl,hval,rfl⟩
    exact ⟨⟨rfl,rfl⟩,hval⟩

@[simp] theorem normal_normal (r : MdioRule) : normal (normal r) = normal r := by
  simp [normal, UInt16.and_assoc]

theorem same_rule {r rule : MdioRule} : r.same rule.reg rule.val rule.mask = true ↔ normal r = normal rule := same_iff

theorem any_same {rules : List MdioRule} {rule : MdioRule} :
    rules.any (·.same rule.reg rule.val rule.mask) = true ↔ normal rule ∈ rules.map normal := by
  rw [List.any_eq_true, List.mem_map]
  exact exists_congr fun r => and_congr_right fun _ => same_rule

theorem hit_normal (r : MdioRule) (x : MdioRequest) : MdioHit (normal r) x ↔ MdioHit r x := by
  simp [MdioHit, MdioRule.matches, normal, UInt16.and_assoc]

/-! ## Policies of edited configurations -/

section
variable (c : MdioPhyConfig) (s : Side)

theorem side_setRules (rules : List MdioRule) (s' : Side) :
    side (c.setRules (modeOf s) rules) s' = if s' = s then rules else side c s' := by
  cases s with
  | allow =>
    cases s' with
    | allow => rfl
    | deny => rfl
  | deny =>
    cases s' with
    | allow => rfl
    | deny => rfl

theorem phyPolicy_setRules (rules : List MdioRule) :
    phyPolicy (c.setRules (modeOf s) rules) = (phyPolicy c).setRules s {q | q ∈ rules.map normal} := by
  cases s with
  | allow => exact policy_ext rfl rfl rfl rfl
  | deny => exact policy_ext rfl rfl rfl rfl

theorem phyPolicy_setPolicy (mode : Side) : phyPolicy (c.setPolicy (modeOf mode)) = (Edit.setMode mode).apply (phyPolicy c) := by
  cases mode with
  | allow => exact policy_ext rfl rfl rfl rfl
  | deny => exact policy_ext rfl rfl rfl rfl

theorem phyPolicy_rules : (phyPolicy c).rules s = {q | q ∈ (side c s).map normal} := rfl

theorem phyPolicy_append (rule : MdioRule) :
    phyPolicy (c.setRules (modeOf s) (side c s ++ [rule])) = (Edit.add s (normal rule)).apply (phyPolicy c) := by
  rw [phyPolicy_setRules, apply_add, setRules_inj, phyPolicy_rules]
  ext q
  simp [or_comm, eq_comm]

theorem phyPolicy_present {rule : MdioRule} (h : normal rule ∈ (side c s).map normal) :
    (Edit.add s (normal rule)).apply (phyPolicy c) = phyPolicy c := by
  have hsame : insert (normal rule) ((phyPolicy c).rules s) = (phyPolicy c).rules s := Set.insert_eq_of_mem h
  rw [apply_add, hsame, setRules_eq]

theorem phyPolicy_filter (rule : MdioRule) :
    phyPolicy (c.setRules (modeOf s) ((side c s).filter fun r => !r.same rule.reg rule.val rule.mask)) =
      (Edit.remove s (normal rule)).apply (phyPolicy c) := by
  rw [phyPolicy_setRules, apply_remove, setRules_inj, phyPolicy_rules]
  ext q
  simp only [Set.mem_ofPred_eq, List.mem_map, List.mem_filter, Bool.not_eq_true', Set.mem_sdiff, Set.mem_singleton_iff]
  constructor
  · rintro ⟨r,⟨hr,hother⟩,rfl⟩
    exact ⟨⟨r,hr,rfl⟩,fun heq => by simp [same_rule.mpr heq] at hother⟩
  · rintro ⟨⟨r,hr,rfl⟩,hother⟩
    exact ⟨r,⟨hr,Bool.eq_false_iff.mpr fun hsame => hother (same_rule.mp hsame)⟩,rfl⟩

theorem phyPolicy_nil : phyPolicy (c.setRules (modeOf s) []) = (Edit.clear s).apply (phyPolicy c) := by
  rw [phyPolicy_setRules, apply_clear, setRules_inj]
  simp

theorem phyPolicy_erase_iff (rule : MdioRule) :
    phyPolicy (c.setRules (modeOf s) ((side c s).eraseP (·.same rule.reg rule.val rule.mask))) =
        (Edit.remove s (normal rule)).apply (phyPolicy c) ↔
      ((side c s).countP fun r => decide (normal r = normal rule)) ≤ 1 := by
  have hpred : (fun r : MdioRule => r.same rule.reg rule.val rule.mask) = fun r => decide (normal r = normal rule) := by
    funext r
    rw [Bool.eq_iff_iff, decide_eq_true_iff]
    exact same_rule
  rw [hpred, phyPolicy_setRules]
  exact setRules_inj.trans (eraseP_erases_iff normal (normal rule) (side c s))

end

end Bvstk.Console
