import Bvstk.Console.I2cAgreement
import Bvstk.Console.MdioAgreement
import Bvstk.I2c.CacheCapture
import Bvstk.Mdio.MirrorCoherence

/-! # The editors of rules agree on sets

Five editors, one meaning: what each of them acknowledges is an edit of two sets of rules.
The runs in which this holds are those that avoid three commands.
-/
namespace Bvstk.Console
open Config I2c RuleSets CallLog

/-- A command does what it asks for, leaves lists that fit, and decisions that follow the
rules. -/
structure Agrees {σ κ ρ χ : Type} (ed : Editor σ κ ρ χ) (fits decides : σ → Prop) (s : σ) (c : κ) : Prop where
  faithful : ed.Faithful s c
  fits : fits (ed.step s c).1
  decides : decides (ed.step s c).1

/-- A run in which every step does. -/
def AgreesAlong {σ κ ρ χ : Type} (ed : Editor σ κ ρ χ) (fits decides : σ → Prop) (s : σ) (commands : List κ) : Prop :=
  ed.Along (Agrees ed fits decides) s commands

section
variable {σ κ ρ χ : Type} {ed : Editor σ κ ρ χ} {fits decides I : σ → Prop} {condition : σ → κ → Prop}

/-- Over a run whose states keep an invariant, everything but faithfulness is given. -/
theorem along_agrees_iff (hkeep : ∀ s c, I s → I (ed.step s c).1) (hfits : ∀ s, I s → fits s)
    (hdecides : ∀ s, I s → decides s) (hfaithful : ∀ s c, I s → (ed.Faithful s c ↔ condition s c)) {s : σ} (hs : I s)
    (commands : List κ) : AgreesAlong ed fits decides s commands ↔ ed.Along condition s commands := by
  refine Editor.along_congr hkeep (fun s c hI => ?_) hs commands
  rw [← hfaithful s c hI]
  exact ⟨Agrees.faithful,fun h => ⟨h,hfits _ (hkeep s c hI),hdecides _ (hkeep s c hI)⟩⟩

theorem along_agrees (hkeep : ∀ s c, I s → I (ed.step s c).1) (hfits : ∀ s, I s → fits s)
    (hdecides : ∀ s, I s → decides s) (hfaithful : ∀ s c, ed.Faithful s c) {s : σ} (hs : I s)
    (commands : List κ) : AgreesAlong ed fits decides s commands :=
  Editor.along_of hkeep (fun s c hI => ⟨hfaithful s c,hfits _ (hkeep s c hI),hdecides _ (hkeep s c hI)⟩) hs commands

end

/-! ## Lists and decisions of each editor -/

def LiveDecides {ε : Type} (deviceId : ℕ) (w : I2cWorld ε) : Prop :=
  ∀ device, w.state.devices.items[deviceId]? = some device → ∀ reg value,
    policyPermits w.state.policy deviceId device reg value = true ↔ (livePolicy w.state deviceId).Allows I2cHit (reg,value)

def ConfigFits (config : I2cFileConfig) : Prop := ∀ side, (rulesOn config side).length ≤ i2cRulesMax

/-- Any service that the configuration is applied to decides by its rules. -/
def ConfigDecides (config : I2cFileConfig) : Prop :=
  ∀ (w : I2cWorld Unit) (deviceId : ℕ), deviceId < w.state.devices.items.length → ∀ reg value,
    policyPermits (masterServiceSetConfig w deviceId config.toI2cDeviceConfig).2.state.policy deviceId
      (deviceOf config.toI2cDeviceConfig) reg value = true ↔ (configPolicy config).Allows I2cHit (reg,value)

def PhyFits (c : MdioPhyConfig) : Prop := ∀ s, (side c s).length ≤ mdioRulesMax

def PhyDecides (c : MdioPhyConfig) : Prop :=
  ∀ reg value, mdioPolicyAllows c reg value = true ↔ (phyPolicy c).Allows MdioHit (reg,value)

/-- The same for the PHY that a service has in place `d`, if there is one. -/
def PhyAt {ε : Type} (P : MdioPhyConfig → Prop) (d : ℕ) (w : Mdio.MdioWorld ε) : Prop :=
  ∀ c, w.state.devices.items[d]? = some c → P c

theorem configDecides_of_valid {config : I2cFileConfig} (h : config.Valid) : ConfigDecides config := by
  intro w deviceId hlt reg value
  obtain ⟨-,hitems,hlive⟩ := setConfig_valid h (List.getElem?_eq_getElem hlt)
  have hdevice : (masterServiceSetConfig w deviceId config.toI2cDeviceConfig).2.state.devices.items[deviceId]? =
      some (deviceOf config.toI2cDeviceConfig) := by rw [hitems, List.getElem?_set_self hlt]
  rw [permits_iff_allows hdevice, hlive]

theorem phyFits_of_valid {c : MdioPhyConfig} (h : c.Valid) : PhyFits c := fun s => h.rules_length (modeOf s)

section
variable {ε : Type}

theorem i2cService_agrees {deviceId : ℕ} {w : I2cWorld ε} (h : LiveFits deviceId w) (edits : List (Edit I2cRule)) :
    AgreesAlong (i2cServiceEditor ε deviceId) (LiveFits deviceId) (LiveDecides deviceId) w edits :=
  along_agrees (I := LiveFits deviceId) (fun w edit hw => serviceEdit_fits w edit hw) (fun _ hw => hw)
    (fun _ _ _ hdevice reg value => permits_iff_allows hdevice reg value) serviceEdit_faithful h edits

theorem i2cConsole_agrees_iff {config : I2cFileConfig} (h : config.Valid) (commands : List (List Word)) :
    AgreesAlong i2cConsoleEditor ConfigFits ConfigDecides config commands ↔
      i2cConsoleEditor.Along DeletesSingle config commands :=
  along_agrees_iff (I := I2cFileConfig.Valid) (fun _ words hc => cmdPolicy_valid hc words)
    (fun _ hc side => (valid_rulesOn hc side).1) (fun _ hc => configDecides_of_valid hc)
    (fun config words _ => cmdPolicy_faithful_iff config words) h commands

theorem neutrino_agrees_iff {config : I2cFileConfig} (h : config.Valid) (commands : List (List Word)) :
    AgreesAlong neutrinoEditor ConfigFits ConfigDecides config commands ↔
      neutrinoEditor.Along AddsWithRoom config commands :=
  along_agrees_iff (I := I2cFileConfig.Valid) (fun _ words hc => policyEdit_valid hc words)
    (fun _ hc side => (valid_rulesOn hc side).1) (fun _ hc => configDecides_of_valid hc)
    (fun config words _ => policyEdit_faithful_iff config words) h commands

theorem mdioService_agrees (P : Mdio.MdioPlatform ε) (d : ℕ) (w : Mdio.MdioWorld ε) (edits : List (Edit MdioRule)) :
    AgreesAlong (mdioServiceEditor P d) (PhyAt PhyFits d) (PhyAt PhyDecides d) w edits :=
  along_agrees (I := fun _ => True) (fun _ _ _ => trivial)
    (fun w _ c hc => phyFits_of_valid (w.state.devices.valid c (List.mem_of_getElem? hc)))
    (fun w _ c hc => mdioAllows_iff (w.state.devices.valid c (List.mem_of_getElem? hc)))
    (mdioServiceEdit_faithful P) trivial edits

theorem mdioConsole_agrees_iff {c : MdioPhyConfig} (h : c.Valid) (commands : List (List Word)) :
    AgreesAlong mdioConsoleEditor PhyFits PhyDecides c commands ↔
      mdioConsoleEditor.Along MdioDeletesSingle c commands :=
  along_agrees_iff (I := MdioPhyConfig.Valid) (fun _ words hc => editPolicy_valid hc words)
    (fun _ hc => phyFits_of_valid hc) (fun _ hc => mdioAllows_iff hc)
    (fun c words _ => editPolicy_faithful_iff c words) h commands

/-- Runs of all five editors from validated configurations: every step agrees with the sets
exactly if no console deletes a rule that is listed twice and the Neutrino runtime adds no
rule to a full list. -/
theorem rule_editors_agree_iff {ε' : Type} {deviceId : ℕ} {w : I2cWorld ε} (hlive : LiveFits deviceId w)
    {config config' : I2cFileConfig} (hconfig : i2cConfigValidate config = .ok) (hconfig' : i2cConfigValidate config' = .ok)
    {phy : MdioPhyConfig} (hphy : mdioConfigValidate phy = .ok) (P : Mdio.MdioPlatform ε') (d : ℕ) (mdio : Mdio.MdioWorld ε')
    (edits : List (Edit I2cRule)) (commands commands' phyCommands : List (List Word)) (phyEdits : List (Edit MdioRule)) :
    (AgreesAlong (i2cServiceEditor ε deviceId) (LiveFits deviceId) (LiveDecides deviceId) w edits ∧
        AgreesAlong i2cConsoleEditor ConfigFits ConfigDecides config commands ∧
        AgreesAlong neutrinoEditor ConfigFits ConfigDecides config' commands' ∧
        AgreesAlong (mdioServiceEditor P d) (PhyAt PhyFits d) (PhyAt PhyDecides d) mdio phyEdits ∧
        AgreesAlong mdioConsoleEditor PhyFits PhyDecides phy phyCommands) ↔
      i2cConsoleEditor.Along DeletesSingle config commands ∧ neutrinoEditor.Along AddsWithRoom config' commands' ∧
        mdioConsoleEditor.Along MdioDeletesSingle phy phyCommands := by
  rw [i2cConsole_agrees_iff (i2cConfigValidate_eq_ok.mp hconfig), neutrino_agrees_iff (i2cConfigValidate_eq_ok.mp hconfig'),
    mdioConsole_agrees_iff (mdioConfigValidate_eq_ok.mp hphy)]
  constructor
  · rintro ⟨-,hconsole,hneutrino,-,hmdio⟩
    exact ⟨hconsole,hneutrino,hmdio⟩
  · rintro ⟨hconsole,hneutrino,hmdio⟩
    exact ⟨i2cService_agrees hlive edits,hconsole,hneutrino,mdioService_agrees P d mdio phyEdits,hmdio⟩

end

/-! ## Some runs -/

/-- A device that permits what a whitelist says. -/
def listedConfig (rules : List I2cRule) : I2cFileConfig := ⟨⟨[97],0x20,4,64,0,rules,[],.zero⟩,[],[]⟩

/-- `whitelist add 0 1` and `whitelist del 0 1`. -/
def addWords : List Word := [wordWhitelist,wordAdd,[48],[49]]
def delWords : List Word := [wordWhitelist,wordDel,[48],[49]]

theorem listedConfig_valid : i2cConfigValidate (listedConfig []) = .ok := by decide

theorem rule_editors_agree_iff_added :
    (AgreesAlong (i2cServiceEditor Unit 0) (LiveFits 0) (LiveDecides 0) coldBoot [.add .allow ⟨0,1⟩] ∧
        AgreesAlong i2cConsoleEditor ConfigFits ConfigDecides (listedConfig []) [addWords,delWords] ∧
        AgreesAlong neutrinoEditor ConfigFits ConfigDecides (listedConfig []) [addWords,delWords] ∧
        AgreesAlong (mdioServiceEditor Mdio.countingPlatform 0) (PhyAt PhyFits 0) (PhyAt PhyDecides 0) (Mdio.onePhyState.start 1)
          [.add .allow ⟨0,1,0xffff⟩] ∧
        AgreesAlong mdioConsoleEditor PhyFits PhyDecides (Mdio.plainPhy 4 []) [addWords,delWords]) ↔
      i2cConsoleEditor.Along DeletesSingle (listedConfig []) [addWords,delWords] ∧
        neutrinoEditor.Along AddsWithRoom (listedConfig []) [addWords,delWords] ∧
        mdioConsoleEditor.Along MdioDeletesSingle (Mdio.plainPhy 4 []) [addWords,delWords] :=
  rule_editors_agree_iff (by intro entry h; cases h; exact ⟨by decide,by decide⟩) listedConfig_valid listedConfig_valid
    (by decide) Mdio.countingPlatform 0 (Mdio.onePhyState.start 1) [.add .allow ⟨0,1⟩] [addWords,delWords] [addWords,delWords]
    [addWords,delWords] [.add .allow ⟨0,1,0xffff⟩]

/-- A rule listed twice: the console acknowledges its deletion and the rule is still there.
The Neutrino runtime and the service delete both. -/
theorem deleted_rule_still_listed :
    i2cConfigValidate (listedConfig [⟨0,1⟩,⟨0,1⟩]) = .ok ∧
      (cmdPolicy (listedConfig [⟨0,1⟩,⟨0,1⟩]) delWords).1 = .ok ∧
      (cmdPolicy (listedConfig [⟨0,1⟩,⟨0,1⟩]) delWords).2.whitelist = [⟨0,1⟩] ∧
      (policyEdit (listedConfig [⟨0,1⟩,⟨0,1⟩]) delWords).map (·.whitelist) = some [] ∧
      removeRule [⟨0,1⟩,⟨0,1⟩] 0 1 = [] := by
  decide

end Bvstk.Console
