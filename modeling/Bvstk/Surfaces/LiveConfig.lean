import Bvstk.Library.Machine
import Bvstk.Surfaces.Linked

/-! # Do the live and the stored configurations stay valid?

Every surface checks the rules that it is given against the device, except a request over
HTTP: it takes any two bytes. Whatever else is done, the configurations stay valid exactly as
long as no such request lists a rule that the device has no register or value for.
-/
namespace Bvstk.Surfaces
open Config I2c Console Web RuleSets CallLog

/-- What a save or a boot checks, of all configurations. -/
def ConfigsValid {ε : Type} (x : Runtime ε) : Prop :=
  (∀ c ∈ x.store, i2cConfigValidate c = .ok) ∧
    ∀ deviceId c, masterServiceGetConfig x.world.state deviceId = some c → i2cConfigValidate c = .ok

/-! ## Requests over HTTP -/

def PolicyReadable (text : Text) : Prop :=
  ∀ policy, jsonGetStringVal text keyPolicy 16 = some policy →
    policy = [] ∨ sameIgnoringCase policy keyWhitelist = true ∨ sameIgnoringCase policy keyBlacklist = true

def RulesReadable (text key : Text) : Prop := jsonFindKey text key ≠ none → jsonParseRulesArray text key ≠ none

/-- A request for a stored device with nothing in it that cannot be read. -/
structure PutReadable (store : ConfigStore) (body : List UInt8) (i : ℕ) (current : I2cFileConfig) : Prop where
  device : ∃ name, jsonGetStringVal (bodyText body) keyName i2cNameMax = some name ∧ configStoreFindByName store name = some i
  entry : store[i]? = some current
  policy : PolicyReadable (bodyText body)
  whitelist : RulesReadable (bodyText body) keyWhitelist
  blacklist : RulesReadable (bodyText body) keyBlacklist

/-- Such a request with a rule for a register or value that the device does not have. -/
def PutForeign (store : ConfigStore) (body : List UInt8) : Prop :=
  ∃ i current, PutReadable store body i current ∧ ∃ key rules rule, (key = keyWhitelist ∨ key = keyBlacklist) ∧
    jsonParseRulesArray (bodyText body) key = some rules ∧ rule ∈ rules ∧ ¬InRange current rule

theorem rulesFrom_length {turns : ℕ} : ∀ {rules out : List I2cRule} {p : Text}, rules.length ≤ i2cRulesMax →
    rulesFrom turns rules p = some out → out.length ≤ i2cRulesMax := by
  induction turns with
  | zero =>
    intro rules out p _ hout
    cases hout
  | succ turns ih =>
    intro rules out p hrules hout
    cases p with
    | nil => cases hout
    | cons first p =>
      simp only [rulesFrom] at hout
      split at hout
      · cases hout
      · split at hout
        · cases hout
          exact hrules
        · split at hout
          · cases hout
          · rename_i hopen
            rw [not_or, Nat.not_le] at hopen
            split at hout
            · cases hout
            · split at hout
              · cases hout
              · rename_i rule _
                have hmore : (rules ++ [rule]).length ≤ i2cRulesMax := by
                  rw [List.length_append]
                  exact hopen.1
                split at hout
                · cases hout
                · split at hout
                  · exact ih hmore hout
                  · split at hout
                    · cases hout
                      exact hmore
                    · exact ih hmore hout

theorem jsonParseRulesArray_length {json key : Text} {rules : List I2cRule} (h : jsonParseRulesArray json key = some rules) :
    rules.length ≤ i2cRulesMax := by
  unfold jsonParseRulesArray at h
  split at h
  · cases h
  · split at h
    · cases h
    · split at h
      · cases h
      · exact rulesFrom_length (Nat.zero_le _) h

theorem policyReadable_iff {text : Text} (old : ℕ) : PolicyReadable text ↔ ∃ policy, putPolicy text old = .ok policy := by
  unfold PolicyReadable putPolicy
  cases jsonGetStringVal text keyPolicy 16 with
  | none => simp
  | some policy =>
    simp only [Option.some.injEq, forall_eq']
    split_ifs with hnil hwhite hblack
    · simp [hnil]
    · simp [hwhite]
    · simp [hblack]
    · simp [hnil, hwhite, hblack]

theorem putPolicy_mode {text : Text} {old policy : ℕ} (hold : PolicyMode.ofCode old ≠ none)
    (h : putPolicy text old = .ok policy) : PolicyMode.ofCode policy ≠ none := by
  unfold putPolicy at h
  split at h
  · cases h
    exact hold
  · split_ifs at h
    all_goals cases h
    · exact hold
    · simp
    · simp

theorem rulesReadable_iff {text key : Text} (old : List I2cRule) (bad : PutReply) :
    RulesReadable text key ↔ ∃ rules, putRules text key old bad = .ok rules := by
  unfold RulesReadable putRules
  by_cases hkey : jsonFindKey text key = none
  · simp [hkey]
  · simp only [ne_eq, hkey, not_false_eq_true, forall_const, if_false]
    cases jsonParseRulesArray text key with
    | none => simp
    | some rules => simp

/-- A list that can be read is the old one or the one of the body. -/
theorem putRules_from {text key : Text} {old rules : List I2cRule} {bad : PutReply} (h : putRules text key old bad = .ok rules) :
    jsonFindKey text key = none ∧ rules = old ∨ jsonParseRulesArray text key = some rules := by
  unfold putRules at h
  split at h
  · rename_i hkey
    cases h
    exact Or.inl ⟨hkey,rfl⟩
  · split at h
    · cases h
    · rename_i hparse
      cases h
      exact Or.inr hparse

/-- What a request makes of the stored configuration. -/
structure PutTakes (text : Text) (current next : I2cFileConfig) : Prop where
  rest : ∃ policy whitelist blacklist,
    next = { current with policy := policy, whitelist := whitelist, blacklist := blacklist }
  mode : PolicyMode.ofCode next.policy ≠ none
  whitelist : jsonFindKey text keyWhitelist = none ∧ next.whitelist = current.whitelist ∨
    jsonParseRulesArray text keyWhitelist = some next.whitelist
  blacklist : jsonFindKey text keyBlacklist = none ∧ next.blacklist = current.blacklist ∨
    jsonParseRulesArray text keyBlacklist = some next.blacklist

section
variable {store : ConfigStore} {body : List UInt8} {i : ℕ} {current next : I2cFileConfig}

theorem apiHandleI2cPut_done (hstore : ∀ c ∈ store, c.Shaped) (h : PutReadable store body i current) :
    ∃ next, apiHandleI2cPut store body = .ok next ∧ PutTakes (bodyText body) current next := by
  obtain ⟨name,hname,hfind⟩ := h.device
  have hmode := (hstore current (List.mem_of_getElem? h.entry)).2.2.2.2.2.2.1
  obtain ⟨policy,hpolicy⟩ := (policyReadable_iff current.policy).mp h.policy
  obtain ⟨whitelist,hwhite⟩ := (rulesReadable_iff current.whitelist .badWhitelist).mp h.whitelist
  obtain ⟨blacklist,hblack⟩ := (rulesReadable_iff current.blacklist .badBlacklist).mp h.blacklist
  have hbody : body ≠ [] := by
    rintro rfl
    simp [bodyText, jsonGetStringVal, jsonFindKey, findKeyFrom, afterPattern] at hname
  have hnil : name ≠ [] := by
    rintro rfl
    simp [configStoreFindByName] at hfind
  refine ⟨_,?_,⟨policy,whitelist,blacklist,rfl⟩,putPolicy_mode hmode hpolicy,putRules_from hwhite,putRules_from hblack⟩
  unfold apiHandleI2cPut
  rw [if_neg hbody, hname]
  dsimp only
  rw [if_neg hnil, hfind, Option.bind_some, h.entry]
  dsimp only
  unfold putConfig
  rw [hpolicy]
  dsimp only
  rw [hwhite]
  dsimp only
  rw [hblack]

theorem apiHandleI2cPut_ok (hstore : ∀ c ∈ store, c.Shaped) (h : apiHandleI2cPut store body = .ok next) :
    ∃ i current, PutReadable store body i current ∧ PutTakes (bodyText body) current next := by
  have hread : ∃ i current, PutReadable store body i current := by
    unfold apiHandleI2cPut at h
    split at h
    · cases h
    · split at h
      · cases h
      · rename_i name hname
        split at h
        · cases h
        · split at h
          · cases h
          · rename_i current hcurrent
            obtain ⟨i,hfind,hentry⟩ := Option.bind_eq_some_iff.mp hcurrent
            unfold putConfig at h
            split at h
            · cases h
            · rename_i policy hpolicy
              split at h
              · cases h
              · rename_i whitelist hwhite
                split at h
                · cases h
                · rename_i blacklist hblack
                  exact ⟨i,current,⟨name,hname,hfind⟩,hentry,(policyReadable_iff _).mpr ⟨policy,hpolicy⟩,
                    (rulesReadable_iff _ _).mpr ⟨whitelist,hwhite⟩,(rulesReadable_iff _ _).mpr ⟨blacklist,hblack⟩⟩
  obtain ⟨i,current,hread⟩ := hread
  obtain ⟨next',hok,htakes⟩ := apiHandleI2cPut_done hstore hread
  obtain rfl : next' = next := by
    rw [h] at hok
    exact (Except.ok.inj hok).symm
  exact ⟨i,current,hread,htakes⟩

theorem PutTakes.lengths {text : Text} (h : PutTakes text current next) (hshaped : current.Shaped) :
    next.whitelist.length ≤ i2cRulesMax ∧ next.blacklist.length ≤ i2cRulesMax := by
  obtain ⟨-,-,-,-,-,-,-,hallow,hdeny,-⟩ := hshaped
  constructor
  · rcases h.whitelist with ⟨-,hsame⟩ | hparse
    · rwa [hsame]
    · exact jsonParseRulesArray_length hparse
  · rcases h.blacklist with ⟨-,hsame⟩ | hparse
    · rwa [hsame]
    · exact jsonParseRulesArray_length hparse

theorem PutTakes.shaped {text : Text} (h : PutTakes text current next) (hshaped : current.Shaped) : next.Shaped := by
  obtain ⟨hallow,hdeny⟩ := h.lengths hshaped
  obtain ⟨hname,hlen,haddr,hzero,hmax,hvalue,-,-,-,hsettings⟩ := hshaped
  have hmode := h.mode
  obtain ⟨policy,whitelist,blacklist,rfl⟩ := h.rest
  exact ⟨hname,hlen,haddr,hzero,hmax,hvalue,hmode,hallow,hdeny,hsettings⟩

theorem PutTakes.storedShape_eq {text : Text} (h : PutTakes text current next) : storedShape next = storedShape current := by
  obtain ⟨policy,whitelist,blacklist,rfl⟩ := h.rest
  rfl

theorem PutTakes.inRange_iff {text : Text} (h : PutTakes text current next) (rule : I2cRule) :
    InRange next rule ↔ InRange current rule := by
  obtain ⟨policy,whitelist,blacklist,rfl⟩ := h.rest
  exact Iff.rfl

/-- All that a harmless request brings is in range. -/
theorem PutTakes.valid (hread : PutReadable store body i current) (h : PutTakes (bodyText body) current next)
    (hvalid : current.Valid) (hno : ¬PutForeign store body) : next.Valid := by
  have hlisted : ∀ {key rules}, (key = keyWhitelist ∨ key = keyBlacklist) →
      jsonParseRulesArray (bodyText body) key = some rules → ∀ r ∈ rules, InRange next r := by
    intro key rules hkey hparse r hr
    rw [h.inRange_iff]
    by_contra hout
    exact hno ⟨i,current,hread,key,rules,r,hkey,hparse,hr,hout⟩
  refine ⟨h.shaped hvalid.shaped,?_,?_,?_,?_⟩
  · rcases h.whitelist with ⟨-,hsame⟩ | hparse
    · exact fun r hr => (h.inRange_iff r).mpr (hvalid.whitelist r (hsame ▸ hr))
    · exact hlisted (Or.inl rfl) hparse
  · rcases h.blacklist with ⟨-,hsame⟩ | hparse
    · exact fun r hr => (h.inRange_iff r).mpr (hvalid.blacklist r (hsame ▸ hr))
    · exact hlisted (Or.inr rfl) hparse
  · obtain ⟨policy,whitelist,blacklist,rfl⟩ := h.rest
    exact hvalid.settings
  · obtain ⟨policy,whitelist,blacklist,rfl⟩ := h.rest
    exact hvalid.profile

theorem jsonFindKey_of_rules {text key : Text} {rules : List I2cRule} (h : jsonParseRulesArray text key = some rules) :
    jsonFindKey text key ≠ none := by
  intro hnone
  simp [jsonParseRulesArray, hnone] at h

/-- A list of a body that is in the configuration, and a rule of it that is out of range. -/
theorem PutTakes.not_valid {text : Text} (h : PutTakes text current next) {key : Text} {rules : List I2cRule} {rule : I2cRule}
    (hkey : key = keyWhitelist ∨ key = keyBlacklist) (hparse : jsonParseRulesArray text key = some rules)
    (hrule : rule ∈ rules) (hout : ¬InRange current rule) (old : I2cFileConfig) : ¬(replaced next old).Valid := by
  intro hvalid
  rw [← h.inRange_iff] at hout
  rcases hkey with rfl | rfl
  · rcases h.whitelist with ⟨hnone,-⟩ | htaken
    · exact jsonFindKey_of_rules hparse hnone
    · obtain rfl := Option.some.inj (hparse.symm.trans htaken)
      exact hout (hvalid.whitelist rule hrule)
  · rcases h.blacklist with ⟨hnone,-⟩ | htaken
    · exact jsonFindKey_of_rules hparse hnone
    · obtain rfl := Option.some.inj (hparse.symm.trans htaken)
      exact hout (hvalid.blacklist rule hrule)

end

section
variable {ε : Type} {x : Runtime ε} {body : List UInt8}

theorem httpI2cPut_linked (hx : Linked x) (hno : ¬PutForeign x.store body) : Linked (httpI2cPut x body).2 := by
  unfold httpI2cPut
  split
  · exact hx
  · rename_i next hput
    obtain ⟨i,current,hread,htakes⟩ := apiHandleI2cPut_ok hx.paired.stored hput
    have hvalid := htakes.valid hread (hx.validAt hread.entry) hno
    exact linked_applyConfig hx hread.entry htakes.storedShape_eq hvalid

theorem httpI2cPut_spoils (hx : Linked x) (hforeign : PutForeign x.store body) : ¬ConfigsValid (httpI2cPut x body).2 := by
  obtain ⟨i,current,hread,key,rules,rule,hkey,hparse,hrule,hout⟩ := hforeign
  obtain ⟨next,hput,htakes⟩ := apiHandleI2cPut_done hx.paired.stored hread
  obtain ⟨hname,-⟩ := Prod.mk.inj htakes.storedShape_eq
  obtain ⟨w,-,hdone⟩ := applyConfig_done hx.paired hread.entry hname (htakes.shaped (hx.validAt hread.entry).shaped)
  unfold httpI2cPut
  rw [hput]
  dsimp only
  rw [hdone]
  rintro ⟨hstored,-⟩
  have hmem : replaced next current ∈ x.store.modify i (replaced next) :=
    List.mem_of_getElem? (by rw [List.getElem?_modify_eq, hread.entry]; rfl)
  exact htakes.not_valid hkey hparse hrule hout current (i2cConfigValidate_eq_ok.mp (hstored _ hmem))

/-! ## Runs -/

theorem validate_zero {count : ℕ} (h : count ≤ i2cMaxRegCount) : metadataValidate .zero count = .ok := by
  unfold metadataValidate
  simp [ProfileMetadata.zero, Nat.not_lt.mpr h, registerMapValid, assetNameValid, registerMapNameMax]

theorem Linked.configsValid (hx : Linked x) : ConfigsValid x := by
  refine ⟨fun c hc => i2cConfigValidate_eq_ok.mpr (hx.stored c hc),fun i c hc => ?_⟩
  unfold masterServiceGetConfig at hc
  split at hc
  · rename_i device entry hdevice hentry
    cases hc
    obtain ⟨stored,hstored,hshape⟩ := hx.storedAt hdevice
    obtain ⟨-,hlen,-,hzero,hmax,hvalue,-⟩ := (hx.validAt hstored).shaped
    simp only [liveShape, storedShape, Prod.mk.injEq] at hshape
    obtain ⟨hsame,hregs,hcode⟩ := hshape
    rw [← hregs] at hzero hmax
    rw [← hcode] at hvalue
    have hfits := hx.live i device entry hdevice hentry
    obtain ⟨hname,haddr,-⟩ := x.world.state.devices.valid device (List.mem_of_getElem? hdevice)
    have hshort : device.name.length < i2cNameMax := by
      rw [← List.length_map (f := toLower), hsame, List.length_map]
      exact hlen
    have hmode : PolicyMode.ofCode entry.mode.code ≠ none := by
      rw [ofCode_code]
      exact Option.some_ne_none _
    exact i2cConfigValidate_eq_ok.mpr ⟨⟨hname,hshort,haddr,hzero,hmax,hvalue,hmode,hfits.whitelist.1,hfits.blacklist.1,Nat.zero_le _⟩,
      hfits.whitelist.2,hfits.blacklist.2,by simp,validate_zero hmax⟩
  · cases hc

/-- The operations that spoil a configuration. -/
def Spoils (x : Runtime ε) : SurfaceOp → Prop
  | .httpPut body => PutForeign x.store body
  | _ => False

theorem step_linked (P : I2cPlatform ε) (hx : Linked x) (op : SurfaceOp) (hno : ¬Spoils x op) : Linked (x.step P op).1 := by
  cases op with
  | service deviceId call => exact linked_run hx deviceId call
  | read deviceId reg source timeoutMs => exact linked_read P hx deviceId reg source timeoutMs
  | write deviceId reg value source timeoutMs => exact linked_write P hx deviceId reg value source timeoutMs
  | consolePolicy token words => exact linked_consolePolicy hx token words
  | consoleAddress token text => exact linked_consoleAddress hx token text
  | consoleWrite token reg value => exact linked_consoleWrite P hx token reg value
  | dcp2Policy opcode body => exact linked_dcp2HandlePolicy hx opcode body
  | httpPut body => exact httpI2cPut_linked hx hno

theorem step_spoils (P : I2cPlatform ε) (hx : Linked x) (op : SurfaceOp) (hspoils : Spoils x op) :
    ¬ConfigsValid (x.step P op).1 := by
  cases op with
  | httpPut body => exact httpI2cPut_spoils hx hspoils
  | _ => exact hspoils.elim

end

/-! ## Start -/

section
variable {ε : Type}

theorem seedSettings_kept (P : I2cPlatform ε) (deviceId : ℕ) (w : I2cWorld ε) (settings : List I2cRule) :
    (seedSettings P deviceId w settings).state.devices = w.state.devices ∧
      (seedSettings P deviceId w settings).state.policy = w.state.policy := by
  induction settings generalizing w with
  | nil => exact ⟨rfl,rfl⟩
  | cons s settings ih =>
    have hseed := forwards_cacheSeed P w deviceId s.reg s.val
    obtain ⟨hdevices,hpolicy⟩ := ih (cacheSeed P w deviceId s.reg s.val).2
    exact ⟨hdevices.trans hseed.devices,hpolicy.trans hseed.policy⟩

theorem seedDevices_kept (P : I2cPlatform ε) (store : ConfigStore) (deviceId : ℕ) (w : I2cWorld ε) :
    (seedDevices P store deviceId w).state.devices = w.state.devices ∧
      (seedDevices P store deviceId w).state.policy = w.state.policy := by
  induction store generalizing deviceId w with
  | nil => exact ⟨rfl,rfl⟩
  | cons config store ih =>
    obtain ⟨hdevices,hpolicy⟩ := ih (deviceId + 1) (seedSettings P deviceId w config.settings)
    obtain ⟨hdevices',hpolicy'⟩ := seedSettings_kept P deviceId w config.settings
    exact ⟨hdevices.trans hdevices',hpolicy.trans hpolicy'⟩

theorem policyItems_getElem? {configs : List I2cDeviceConfig} {entries : List I2cPolicyEntry}
    (h : policyItems configs = some entries) (i : ℕ) : entries[i]? = (configs[i]?).bind policyEntryOf := by
  induction configs generalizing entries i with
  | nil =>
    cases h
    simp
  | cons config configs ih =>
    simp only [policyItems] at h
    split at h
    · cases h
    · split at h
      · rename_i first rest hfirst hrest
        cases h
        cases i with
        | zero => simp [hfirst]
        | succ i => simpa using ih hrest i
      · cases h

theorem initializeI2c_parts {P : I2cPlatform ε} {store : ConfigStore} {env : ε} {x : Runtime ε}
    (hstart : initializeI2c P store env = some x) :
    x.store = store ∧ x.world.state.devices.items = (store.map (·.toI2cDeviceConfig)).map deviceOf ∧
      policyItems (store.map (·.toI2cDeviceConfig)) = some x.world.state.policy.items := by
  unfold initializeI2c at hstart
  dsimp only at hstart
  split at hstart
  · rename_i devices cache policy hdevices _ hpolicy
    split at hstart
    · rename_i s hservice
      cases hstart
      obtain ⟨hkept,hkept'⟩ := seedDevices_kept P store 0 ⟨s,env,[]⟩
      obtain ⟨hs,hs'⟩ : s.devices = devices ∧ s.policy = policy := by
        unfold masterServiceInit at hservice
        split at hservice
        · cases hservice
          exact ⟨rfl,rfl⟩
        · cases hservice
      refine ⟨rfl,?_,?_⟩
      · unfold devicesInitFromConfig devicesInit at hdevices
        split at hdevices
        · cases hdevices
          dsimp only at hkept ⊢
          rw [hkept, hs]
          rfl
        · cases hdevices
      · unfold policyInit at hpolicy
        split at hpolicy
        · cases hpolicy
        · split at hpolicy
          · cases hpolicy
          · rename_i items hall
            cases hpolicy
            dsimp only at hkept' ⊢
            rw [hkept', hs']
            exact hall
    · cases hstart
  · cases hstart

/-- What the service starts with is what the store has. -/
theorem initializeI2c_linked {P : I2cPlatform ε} {store : ConfigStore} {env : ε} {x : Runtime ε}
    (hvalid : ∀ c ∈ store, i2cConfigValidate c = .ok) (hnames : (store.map fun c => c.name.map toLower).Nodup)
    (hstart : initializeI2c P store env = some x) : Linked x := by
  have hall : ∀ c ∈ store, c.Valid := fun c hc => i2cConfigValidate_eq_ok.mp (hvalid c hc)
  obtain ⟨hstore,hitems,hentries⟩ := initializeI2c_parts hstart
  refine ⟨by rwa [hstore],?_,?_,by rwa [hstore]⟩
  · rw [hstore, hitems, List.map_map, List.map_map]
    refine List.map_congr_left fun c hc => ?_
    have hcut : c.name.take (i2cNameMax - 1) = c.name :=
      List.take_of_length_le (Nat.le_pred_of_lt (hall c hc).shaped.2.1)
    simp only [Function.comp_apply, liveShape, storedShape, deviceOf, hcut]
  · intro i device entry hdevice hentry
    rw [hitems, List.getElem?_map, List.getElem?_map] at hdevice
    rw [policyItems_getElem? hentries, List.getElem?_map] at hentry
    cases hc : store[i]? with
    | none => simp [hc] at hdevice
    | some c =>
      rw [hc, Option.map_some, Option.map_some, Option.some.injEq] at hdevice
      rw [hc, Option.map_some, Option.bind_some] at hentry
      subst hdevice
      exact entryFits_of_valid (hall c (List.mem_of_getElem? hc)) hentry

/-- Live and stored configurations are valid all along exactly when no request over HTTP that is
otherwise in order lists a rule out of the range of its device. -/
theorem live_config_valid_iff (P : I2cPlatform ε) {store : ConfigStore} {env : ε} {x : Runtime ε}
    (hvalid : ∀ c ∈ store, i2cConfigValidate c = .ok) (hnames : (store.map fun c => c.name.map toLower).Nodup)
    (hstart : initializeI2c P store env = some x) (ops : List SurfaceOp) :
    (∀ pre, pre <+: ops → ConfigsValid (Machine.final (Runtime.step P) x pre)) ↔
      ∀ pre body, pre ++ [.httpPut body] <+: ops → ¬PutForeign (Machine.final (Runtime.step P) x pre).store body := by
  have hlinked := initializeI2c_linked hvalid hnames hstart
  have hruns : (∀ pre, pre <+: ops → ConfigsValid (Machine.final (Runtime.step P) x pre)) ↔
      ∀ pre op, pre ++ [op] <+: ops → ¬Spoils (Machine.final (Runtime.step P) x pre) op :=
    Machine.final_good_iff (I := Linked) (fun _ hx => hx.configsValid) (fun _ op hx => step_linked P hx op)
      (fun _ op hx => step_spoils P hx op) hlinked ops
  rw [hruns]
  constructor
  · intro h pre body hpre
    exact h pre (.httpPut body) hpre
  · intro h pre op hpre
    cases op with
    | httpPut body => exact h pre body hpre
    | _ => exact False.elim

end

/-! ## A request for a register that the device does not have -/

/-- `{"name":"a","whitelist":[{"reg":9,"val":1}]}`. -/
def registerNineBody : List UInt8 :=
  [123,34,110,97,109,101,34,58,34,97,34,44,34,119,104,105,116,101,108,105,115,116,34,58,91,123,34,114,101,103,34,58,57,
    44,34,118,97,108,34,58,49,125,93,125]

theorem warmConfig_started : ∃ x, initializeI2c stillPlatform [warmConfig []] () = some x :=
  Option.isSome_iff_exists.mp (by decide)

theorem warmConfig_store : (∀ c ∈ [warmConfig []], i2cConfigValidate c = .ok) ∧
    (([warmConfig []] : ConfigStore).map fun c => c.name.map toLower).Nodup := by
  constructor
  · simp only [List.mem_singleton, forall_eq]
    decide
  · simp

theorem live_config_valid_iff_started : ∃ x, initializeI2c stillPlatform [warmConfig []] () = some x ∧
    ((∀ pre, pre <+: [.httpPut registerNineBody] → ConfigsValid (Machine.final (Runtime.step stillPlatform) x pre)) ↔
      ∀ pre body, pre ++ [.httpPut body] <+: [.httpPut registerNineBody] →
        ¬PutForeign (Machine.final (Runtime.step stillPlatform) x pre).store body) := by
  obtain ⟨x,hstart⟩ := warmConfig_started
  exact ⟨x,hstart,live_config_valid_iff stillPlatform warmConfig_store.1 warmConfig_store.2 hstart _⟩

theorem register_nine_foreign : PutForeign [warmConfig []] registerNineBody := by
  have hpolicy : jsonGetStringVal (bodyText registerNineBody) keyPolicy 16 = none := by decide
  have hblack : jsonFindKey (bodyText registerNineBody) keyBlacklist = none := by decide
  have hwhite : jsonParseRulesArray (bodyText registerNineBody) keyWhitelist = some [⟨9,1⟩] := by decide
  refine ⟨0,warmConfig [],⟨⟨[97],by decide,by decide⟩,rfl,?_,?_,?_⟩,keyWhitelist,_,⟨9,1⟩,Or.inl rfl,hwhite,by simp,?_⟩
  · intro policy h
    simp [hpolicy] at h
  · intro _
    simp [hwhite]
  · intro h
    exact absurd hblack h
  · rintro ⟨hreg,-⟩
    exact absurd hreg (by decide)

/-- A device with four registers takes a rule for register 9. -/
theorem register_nine_accepted : ∃ x, initializeI2c stillPlatform [warmConfig []] () = some x ∧
    ¬ConfigsValid (x.step stillPlatform (.httpPut registerNineBody)).1 := by
  obtain ⟨x,hstart⟩ := warmConfig_started
  have hlinked := initializeI2c_linked warmConfig_store.1 warmConfig_store.2 hstart
  have hstore := (initializeI2c_parts hstart).1
  exact ⟨x,hstart,httpI2cPut_spoils hlinked (hstore.symm ▸ register_nine_foreign)⟩

end Bvstk.Surfaces
