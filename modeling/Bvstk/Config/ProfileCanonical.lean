import Bvstk.Config.ProfilePrinting

/-! # What the writer prints

The text of `format` is the document of a profile of version 2 in the canonical layout: the
profile itself, or what becomes of one without a version.
-/
namespace Bvstk.Config.Profile
open JsonText (Layout Tree memberText printMember printMembers_eq)
open I2cJson (decimal)

/-! ## The canonical layout -/

def canonical : Spacing :=
  ⟨⟨[10,32,32],[10,32,32],[10]⟩,⟨[10,32,32,32,32],[10,32,32,32,32],[10,32,32]⟩,⟨[],[32],[]⟩,[32]⟩

theorem canonical_blank : canonical.Blank := by
  have hline : ∀ s ∈ ([[10,32,32],[10],[10,32,32,32,32],[],[32]] : List Bytes), JsonText.Blank s := by
    decide
  refine ⟨⟨?_,?_,?_⟩,⟨?_,?_,?_⟩,⟨?_,?_,?_⟩,?_⟩
  all_goals exact hline _ (by decide)

/-- A member on a line. -/
def pair (k : String) (v : Bytes) : Bytes := token (I2cJson.text k) ++ 58 :: 32 :: v

/-- What follows the first member. -/
def pairs (fs : List (String × Tree)) : Bytes := fs.flatMap fun f => 44 :: 32 :: pair f.1 (canonical.print f.2)

theorem objectOf_present (fs : List (String × Option Tree)) :
    objectOf fs = .object ((present fs).map fun f => (I2cJson.text f.1,f.2)) := by
  rw [objectOf, present, List.map_filterMap]
  simp only [Option.map_map]
  rfl

theorem print_objectOf {fs : List (String × Option Tree)} {k : String} {t : Tree} {r : List (String × Tree)}
    (h : present fs = (k,t) :: r) :
    canonical.print (objectOf fs) = 123 :: (pair k (canonical.print t) ++ (pairs r ++ [125])) := by
  have hmember : ∀ f : String × Tree, printMember token canonical.inline canonical.gap (I2cJson.text f.1,f.2) =
      pair f.1 (canonical.print f.2) := fun f => by
    rw [printMember, memberText]
    rfl
  rw [objectOf_present, Spacing.print, Tree.print, printMembers_eq, List.map_map]
  simp only [Function.comp_def, hmember, h, List.map_cons, Layout.lay, List.flatMap_map]
  simp [canonical, pairs]

/-- A text that is written as it is. -/
def Unescaped (s : Name) : Prop := ∀ b ∈ s, b ≠ 34 ∧ b ≠ 92

instance (s : Name) : Decidable (Unescaped s) := List.decidableBAll _ s

theorem token_plain {s : Name} (h : Unescaped s) : token s = 34 :: (s ++ [34]) := by
  have hflat : s.flatMap escape = s := by
    induction s with
    | nil => rfl
    | cons b s ih =>
      obtain ⟨hb,hs⟩ := List.forall_mem_cons.mp h
      rw [List.flatMap_cons, ih hs, escape, if_neg (by simpa using hb)]
      rfl
  rw [token, hflat]

theorem print_string (s : Name) : canonical.print (.string s) = token s := by rw [Spacing.print, Tree.print]

theorem print_str {s : String} (h : Unescaped (I2cJson.text s)) :
    canonical.print (str s) = 34 :: (I2cJson.text s ++ [34]) := by
  rw [str, print_string, token_plain h]

theorem hexText_plain (digits k : ℕ) : Unescaped (hexText digits k) := by
  intro b hb
  rw [hexText, List.mem_cons, List.mem_cons] at hb
  rcases hb with rfl | rfl | hb
  · decide
  · decide
  · obtain ⟨d,hd⟩ := (hexPadded_numeral true digits k).digit b hb
    unfold JsonText.HexDigit at hd
    constructor
    · rintro rfl
      change (d < 10 ∧ 34 = 48 + d) ∨ _ at hd
      change _ ∨ 10 ≤ d ∧ d < 16 ∧ (34 = 87 + d ∨ 34 = 55 + d) at hd
      omega
    · rintro rfl
      change (d < 10 ∧ 92 = 48 + d) ∨ 10 ≤ d ∧ d < 16 ∧ (92 = 87 + d ∨ 92 = 55 + d) at hd
      omega

theorem print_hex (digits k : ℕ) : canonical.print (hexTree digits k) = 34 :: (hexText digits k ++ [34]) := by
  rw [hexTree, print_string, token_plain (hexText_plain digits k)]

theorem print_num (k : ℕ) : canonical.print (num k) = decimal k := by rw [Spacing.print, num, Tree.print]

theorem print_bool (b : Bool) : canonical.print (boolTree b) = boolText b := by rw [Spacing.print, boolTree, Tree.print]

theorem print_array (ts : List Tree) :
    canonical.print (.array ts) = 91 :: (canonical.inline.lay (ts.map canonical.print) ++ [93]) := by
  rw [Spacing.print, Tree.print, JsonText.printList_eq]
  rfl

/-! ## The parts of the document -/

theorem transportText_eq (mdio : Bool) (p : DeviceProfile) : transportText mdio p =
    125 :: (I2cJson.text ",\n  \"transport\": " ++ canonical.print (transportTree mdio p.address) ++ I2cJson.text ",\n") := by
  generalize haddress : hexText 2 p.address = address
  cases mdio with
  | true =>
    have hpresent : present [("bus",some (str (busName true))),("controller",some (str (controller true))),
        ("address",some (hexTree 2 p.address)),("address_bits",if true = true then none else some (num 7))] =
        ("bus",str (busName true)) :: [("controller",str (controller true)),("address",hexTree 2 p.address)] := rfl
    rw [transportText, transportTree, print_objectOf hpresent]
    simp only [pairs, pair, List.flatMap_cons, List.flatMap_nil, print_hex, haddress, print_str (s := busName true) (by decide),
      print_str (s := controller true) (by decide), List.append_assoc, List.cons_append, List.nil_append, List.append_nil]
    rfl
  | false =>
    have hpresent : present [("bus",some (str (busName false))),("controller",some (str (controller false))),
        ("address",some (hexTree 2 p.address)),("address_bits",if false = true then none else some (num 7))] =
        ("bus",str (busName false)) ::
          [("controller",str (controller false)),("address",hexTree 2 p.address),("address_bits",num 7)] := rfl
    rw [transportText, transportTree, print_objectOf hpresent]
    simp only [pairs, pair, List.flatMap_cons, List.flatMap_nil, print_hex, print_num, haddress,
      print_str (s := busName false) (by decide), print_str (s := controller false) (by decide), List.append_assoc,
      List.cons_append, List.nil_append, List.append_nil]
    rfl

/-- A member of the document, on a line. -/
def line (k : String) (v : Bytes) : Bytes := 44 :: 10 :: 32 :: 32 :: pair k v

theorem memberUnlessEmpty_bytes (s : Name) (key : Bytes) :
    (memberUnlessEmpty s key).flatMap Output.bytes = if s = [] then [] else key ++ token s := by
  unfold memberUnlessEmpty
  split
  · simp
  · simp [Output.bytes]

theorem pairs_unlessEmpty (k : String) (s : Name) (fs : List (String × Option Tree)) :
    pairs (present ((k,unlessEmpty s) :: fs)) = (if s = [] then [] else 44 :: 32 :: pair k (token s)) ++ pairs (present fs) := by
  unfold unlessEmpty
  split
  · simp [present]
  · simp [present, pairs, print_string]

/-- What a list is printed as. -/
theorem listed_bytes {α : Type} {item : Bytes → α → List Output} {f : α → Bytes}
    (h : ∀ separator x, (item separator x).flatMap Output.bytes = separator ++ f x) (xs : List α) :
    (listed item xs).flatMap Output.bytes = canonical.inline.lay (xs.map f) := by
  have hseparator : I2cJson.text ", " = [44,32] := by decide
  cases xs with
  | nil => rfl
  | cons x xs =>
    rw [listed, List.flatMap_append, h, List.map_cons, Layout.lay, List.flatMap_assoc, List.flatMap_map]
    simp only [h, hseparator]
    simp [canonical]

/-- The metadata of the profile that is written. -/
def modernMetadata (mdio : Bool) (p : DeviceProfile) : ProfileMetadata where
  version := 2
  vendor := if p.profile.version = 0 then [] else p.profile.vendor
  model := if p.profile.version = 0 then p.name else p.profile.model
  deviceClass := if p.profile.version = 0 then I2cJson.text (if mdio = true then "phy" else "generic") else p.profile.deviceClass
  label := if p.profile.version = 0 then [] else p.profile.label
  registerMap := p.profile.registerMap
  view := p.profile.view
  idOffset := offsets (resourceId p.profile) p.regCount
  ids := layout (resourceId p.profile) p.regCount

/-- The profile of version 2 that is written for a profile. -/
def modern (mdio : Bool) (p : DeviceProfile) : DeviceProfile :=
  { p with settings := writtenSeeds mdio p.settings, profile := modernMetadata mdio p }

theorem deviceOutput_eq (mdio : Bool) (p : DeviceProfile) : (deviceOutput mdio p).flatMap Output.bytes ++ [125] =
    line "device" (canonical.print (deviceTree (modernMetadata mdio p))) := by
  have hpresent : present [("model",some (.string (modernMetadata mdio p).model)),
      ("class",some (.string (modernMetadata mdio p).deviceClass)),("vendor",unlessEmpty (modernMetadata mdio p).vendor),
      ("label",unlessEmpty (modernMetadata mdio p).label)] = ("model",.string (modernMetadata mdio p).model) ::
      present [("class",some (.string (modernMetadata mdio p).deviceClass)),("vendor",unlessEmpty (modernMetadata mdio p).vendor),
      ("label",unlessEmpty (modernMetadata mdio p).label)] := rfl
  have hclass : ∀ (s : Name) fs, pairs (present (("class",some (Tree.string s)) :: fs)) =
      44 :: 32 :: (pair "class" (token s) ++ pairs (present fs)) := fun s fs => by
    simp [present, pairs, print_string]
  rw [deviceTree, print_objectOf hpresent, hclass, pairs_unlessEmpty, pairs_unlessEmpty, print_string]
  unfold modernMetadata deviceOutput
  simp only [List.flatMap_append, memberUnlessEmpty_bytes, List.flatMap_cons, List.flatMap_nil, Output.bytes]
  generalize token (if p.profile.version = 0 then p.name else p.profile.model) = model
  generalize token (if p.profile.version = 0 then I2cJson.text (if mdio = true then "phy" else "generic")
    else p.profile.deviceClass) = word
  generalize (if p.profile.version = 0 then [] else p.profile.vendor) = vendor
  generalize (if p.profile.version = 0 then [] else p.profile.label) = label
  have hvendor : I2cJson.text ", \"vendor\": " ++ token vendor = 44 :: 32 :: pair "vendor" (token vendor) := rfl
  have hlabel : I2cJson.text ", \"label\": " ++ token label = 44 :: 32 :: pair "label" (token label) := rfl
  have hlast : pairs (present []) = [] := rfl
  rw [hlast, hvendor, hlabel]
  generalize (if vendor = [] then [] else 44 :: 32 :: pair "vendor" (token vendor)) = vendorText
  generalize (if label = [] then [] else 44 :: 32 :: pair "label" (token label)) = labelText
  simp only [line, pair, List.append_assoc, List.cons_append, List.append_nil]
  rfl

/-- A list of trees that are written by the items of a list. -/
theorem print_listed {α : Type} {item : Bytes → α → List Output} {tree : α → Tree}
    (h : ∀ separator x, (item separator x).flatMap Output.bytes = separator ++ canonical.print (tree x)) (xs : List α) :
    canonical.print (.array (xs.map tree)) = 91 :: ((listed item xs).flatMap Output.bytes ++ [93]) := by
  rw [print_array, listed_bytes h, List.map_map]
  rfl

theorem protocolOutput_eq (mdio : Bool) (p : DeviceProfile) :
    44 :: 10 :: ((protocolOutput mdio p).flatMap Output.bytes ++ [125,125]) =
      line "protocol" (canonical.print (protocolTree mdio p (resourceId p.profile))) := by
  have hprotocol : ∀ t, present [("driver",some (str (driver mdio))),("options",some t)] =
      ("driver",str (driver mdio)) :: [("options",t)] := fun t => rfl
  rw [protocolTree, print_objectOf (hprotocol _)]
  cases mdio with
  | true =>
    have horder : ∀ separator reg, (([.text separator,.quoted (resourceId p.profile reg)] : List Output)).flatMap Output.bytes =
        separator ++ canonical.print (.string (resourceId p.profile reg)) := fun separator reg => by
      rw [print_string]
      simp [Output.bytes]
    have hoptions : ∀ t, present [("autopoll_enabled",some (boolTree p.autopollEnabled)),
        ("autopoll_reg_delay_ms",some (num p.autopollRegDelayMs)),
        ("autopoll_cycle_delay_ms",some (num p.autopollCycleDelayMs)),("autopoll_order",some t)] =
        ("autopoll_enabled",boolTree p.autopollEnabled) :: [("autopoll_reg_delay_ms",num p.autopollRegDelayMs),
          ("autopoll_cycle_delay_ms",num p.autopollCycleDelayMs),("autopoll_order",t)] := fun t => rfl
    rw [optionsTree, if_pos rfl]
    simp only [pairs, pair, List.flatMap_cons, List.flatMap_nil, print_objectOf (hoptions _), print_str (s := driver true) (by decide),
      print_bool, print_num, print_listed horder, protocolOutput, if_true, List.flatMap_append, Output.bytes]
    generalize (listed _ p.autopollRegs).flatMap Output.bytes = order
    generalize boolText p.autopollEnabled = enabled
    generalize decimal p.autopollRegDelayMs = regDelay
    generalize decimal p.autopollCycleDelayMs = cycleDelay
    simp only [line, pair, List.append_assoc, List.cons_append, List.append_nil, List.nil_append]
    rfl
  | false =>
    have hoptions : present [("max_write_value",some (hexTree 2 p.maxValueCode)),("capture_cache_on_save",some (boolTree true))] =
        ("max_write_value",hexTree 2 p.maxValueCode) :: [("capture_cache_on_save",boolTree true)] := rfl
    rw [optionsTree, if_neg (by decide)]
    simp only [pairs, pair, List.flatMap_cons, List.flatMap_nil, print_objectOf hoptions, print_str (s := driver false) (by decide),
      print_bool, print_hex, protocolOutput, Bool.false_eq_true, if_false, Output.bytes]
    generalize hexText 2 p.maxValueCode = code
    simp only [line, pair, List.append_assoc, List.cons_append, List.append_nil, List.nil_append]
    rfl

set_option maxRecDepth 2000 in
theorem defaultsText_eq (mdio : Bool) : defaultsText mdio =
    125 :: 125 :: (line "defaults" (canonical.print (defaultsTree mdio)) ++ I2cJson.text ",\n  \"resources\": [\n") := by
  have hmode : canonical.print (modeTree "driver") = 123 :: (pair "mode" (34 :: (I2cJson.text "driver" ++ [34])) ++ [125]) := by
    have hpresent : present [("mode",some (str "driver"))] = ("mode",str "driver") :: [] := rfl
    rw [modeTree, print_objectOf hpresent, print_str (by decide)]
    simp [pairs]
  have hdefaults : present [("register",some (registerTree mdio))] = ("register",registerTree mdio) :: [] := rfl
  have hregister : present [("width_bits",some (num (width mdio))),("access",some (str "rw")),
      ("write_mask",some (hexTree (width mdio / 4) (maximum mdio).toNat)),("cache",some (modeTree "driver")),
      ("verify",some (modeTree "driver"))] = ("width_bits",num (width mdio)) :: [("access",str "rw"),
      ("write_mask",hexTree (width mdio / 4) (maximum mdio).toNat),("cache",modeTree "driver"),("verify",modeTree "driver")] := rfl
  rw [defaultsTree, print_objectOf hdefaults, registerTree]
  simp only [pairs, pair, List.flatMap_cons, List.flatMap_nil, print_objectOf hregister, hmode, print_num, print_hex,
    print_str (s := "rw") (by decide), defaultsText]
  generalize hexText _ _ = mask
  generalize decimal _ = bits
  simp only [line, pair, List.append_assoc, List.cons_append, List.append_nil, List.nil_append]
  rfl

/-- Rows with commas behind all but the last of `count` ones. -/
theorem rows_text (g : ℕ → Bytes) {count k : ℕ} (h : k < count) :
    10 :: (List.range (k + 1)).flatMap (fun i => 32 :: 32 :: 32 :: 32 :: (g i ++ ((if i + 1 = count then [] else [44]) ++ [10]))) =
      [10,32,32,32,32] ++ g 0 ++ ((List.range k).map (g ∘ Nat.succ)).flatMap (fun w => 44 :: ([10,32,32,32,32] ++ w)) ++
        ((if k + 1 = count then [] else [44]) ++ [10]) := by
  induction k with
  | zero => simp
  | succ k ih =>
    have hprefix := ih (by omega)
    rw [if_neg (by omega : k + 1 ≠ count)] at hprefix
    rw [List.range_succ, List.flatMap_append, ← List.cons_append, hprefix, List.range_succ (n := k), List.map_append,
      List.flatMap_append]
    simp

theorem resourceOutput_eq (p : ProfileMetadata) (count i : ℕ) : (resourceOutput p count i).flatMap Output.bytes =
    32 :: 32 :: 32 :: 32 :: (canonical.print (resourceTree (resourceId p) i) ++ ((if i + 1 = count then [] else [44]) ++ [10])) := by
  have hpresent : present [("id",some (Tree.string (resourceId p i))),("kind",some (str "register")),
      ("address",some (hexTree 2 i))] =
      ("id",.string (resourceId p i)) :: [("kind",str "register"),("address",hexTree 2 i)] := rfl
  have hcomma : I2cJson.text "," = [44] := by decide
  rw [resourceTree, print_objectOf hpresent]
  simp only [pairs, pair, List.flatMap_cons, List.flatMap_nil, print_string, print_hex, print_str (s := "register") (by decide),
    resourceOutput, Output.bytes, hcomma]
  generalize (if i + 1 = count then [] else [44]) = comma
  generalize token (resourceId p i) = id
  generalize hexText 2 i = address
  simp only [List.append_assoc, List.cons_append, List.append_nil, List.nil_append]
  rfl

theorem resources_eq (p : ProfileMetadata) {count : ℕ} (h : 0 < count) :
    10 :: (((List.range count).flatMap (resourceOutput p count)).flatMap Output.bytes ++ [32,32]) =
      canonical.rows.lay ((List.range count).map fun i => canonical.print (resourceTree (resourceId p) i)) := by
  obtain ⟨k,rfl⟩ : ∃ k, count = k + 1 := ⟨count - 1,by omega⟩
  have hrows := rows_text (fun i => canonical.print (resourceTree (resourceId p) i)) (Nat.lt_succ_self k)
  rw [if_pos rfl] at hrows
  rw [List.flatMap_assoc]
  simp only [resourceOutput_eq]
  rw [← List.cons_append, hrows, List.range_succ_eq_map, List.map_cons, List.map_map, Layout.lay]
  simp [canonical, Function.comp_def]

theorem ruleOutput_eq (mdio : Bool) (p : ProfileMetadata) (separator : Bytes) (r : PolicyRule) :
    (ruleOutput mdio p separator r).flatMap Output.bytes = separator ++ canonical.print (ruleTree mdio (resourceId p) r) := by
  have hmatch : present [("value",some (hexTree (width mdio / 4) r.val)),("mask",some (hexTree (width mdio / 4) r.mask))] =
      ("value",hexTree (width mdio / 4) r.val) :: [("mask",hexTree (width mdio / 4) r.mask)] := rfl
  have hrule : ∀ t, present [("resource",some (Tree.string (resourceId p r.reg))),("match",some t)] =
      ("resource",.string (resourceId p r.reg)) :: [("match",t)] := fun t => rfl
  rw [ruleTree, print_objectOf (hrule _)]
  simp only [pairs, pair, List.flatMap_cons, List.flatMap_nil, print_objectOf hmatch, print_string, print_hex, ruleOutput, Output.bytes]
  generalize token (resourceId p r.reg) = id
  generalize hexText (width mdio / 4) r.val = value
  generalize hexText (width mdio / 4) r.mask = mask
  simp only [List.append_assoc, List.cons_append, List.append_nil, List.nil_append]
  rfl

theorem seedOutput_eq (mdio : Bool) (p : ProfileMetadata) (separator : Bytes) (s : Seed) :
    (seedOutput mdio p separator s).flatMap Output.bytes = separator ++ canonical.print (seedTree mdio (resourceId p) s) := by
  have hseed : present [("resource",some (Tree.string (resourceId p s.reg))),("value",some (hexTree (width mdio / 4) s.val))] =
      ("resource",.string (resourceId p s.reg)) :: [("value",hexTree (width mdio / 4) s.val)] := rfl
  rw [seedTree, print_objectOf hseed]
  simp only [pairs, pair, List.flatMap_cons, List.flatMap_nil, print_string, print_hex, seedOutput, Output.bytes]
  generalize token (resourceId p s.reg) = id
  generalize hexText (width mdio / 4) s.val = value
  simp only [List.append_assoc, List.cons_append, List.append_nil, List.nil_append]
  rfl

set_option maxRecDepth 2000 in
theorem policyOutput_eq (mdio : Bool) (p : DeviceProfile) : (policyOutput mdio p).flatMap Output.bytes ++ [125,125] =
    32 :: 32 :: 93 :: line "policy" (canonical.print (policyTree mdio p (resourceId p.profile))) := by
  have hread : present [("mode",some (str "blacklist")),("rules",some (.array []))] =
      ("mode",str "blacklist") :: [("rules",.array [])] := rfl
  have hwrite : ∀ m s t, present [("mode",some m),("rules",some s),("inactive_rules",some t)] =
      ("mode",m) :: [("rules",s),("inactive_rules",t)] := fun m s t => rfl
  have hpolicy : ∀ s t, present [("read",some s),("write",some t)] = ("read",s) :: [("write",t)] := fun s t => rfl
  have hmode : canonical.print (str (modeName p.policy)) = 34 :: (modeWord p.policy ++ [34]) := by
    cases p.policy with
    | whitelist => exact print_str (by decide)
    | blacklist => exact print_str (by decide)
  have hempty : canonical.print (.array []) = [91,93] := by
    rw [print_array]
    rfl
  rw [policyTree, print_objectOf (hpolicy _ _), readTree, writeTree]
  simp only [pairs, pair, List.flatMap_cons, List.flatMap_nil, print_objectOf hread, print_objectOf (hwrite _ _ _), hmode, hempty,
    print_str (s := "blacklist") (by decide), print_listed (ruleOutput_eq mdio p.profile), policyOutput, List.flatMap_append, Output.bytes]
  generalize (listed (ruleOutput mdio p.profile) (DeviceProfile.active p)).flatMap Output.bytes = active
  generalize (listed (ruleOutput mdio p.profile) (DeviceProfile.inactive p)).flatMap Output.bytes = inactive
  generalize modeWord p.policy = mode
  simp only [line, pair, List.append_assoc, List.cons_append, List.append_nil, List.nil_append]
  rfl

set_option maxRecDepth 2000 in
theorem settingsOutput_eq (mdio : Bool) (p : DeviceProfile) (ids : ProfileMetadata) :
    I2cJson.text "\x7d\x7d,\n  \"settings\": \x7b\"desired\": [], \"cache_seed\": [" ++
      ((listed (seedOutput mdio ids) p.settings).flatMap Output.bytes ++
        I2cJson.text ("], \"apply_on_startup\": false\x7d,\n  \"observability\": \x7b\"telemetry\": true, " ++
          "\"events\": true\x7d\n\x7d\n")) =
      125 :: 125 :: (line "settings" (canonical.print (settingsTree mdio p (resourceId ids))) ++
        (line "observability" (canonical.print observabilityTree) ++ [10,125,10])) := by
  have hsettings : ∀ t, present [("desired",some (.array [])),("cache_seed",some t),("apply_on_startup",some (boolTree false))] =
      ("desired",.array []) :: [("cache_seed",t),("apply_on_startup",boolTree false)] := fun t => rfl
  have hobserve : present [("telemetry",some (boolTree true)),("events",some (boolTree true))] =
      ("telemetry",boolTree true) :: [("events",boolTree true)] := rfl
  have hempty : canonical.print (.array []) = [91,93] := by
    rw [print_array]
    rfl
  rw [settingsTree, print_objectOf (hsettings _), observabilityTree, print_objectOf hobserve]
  simp only [pairs, pair, List.flatMap_cons, List.flatMap_nil, hempty, print_bool, print_listed (seedOutput_eq mdio ids)]
  generalize (listed (seedOutput mdio ids) p.settings).flatMap Output.bytes = seeds
  simp only [line, pair, List.append_assoc, List.cons_append, List.append_nil, List.nil_append]
  rfl

/-! ## The whole document -/

/-- A member that may be missing, on a line. -/
def lineUnlessEmpty (k : String) (s : Name) : Bytes := if s = [] then [] else line k (token s)

/-- Members of the document, each on a line. -/
def lines (ids : ℕ → Name) (count : ℕ) (fs : List (String × Option Tree)) : Bytes :=
  (present fs).flatMap fun f => line f.1 (canonical.fieldText ids count f)

theorem lines_some (ids : ℕ → Name) (count : ℕ) (k : String) (t : Tree) (fs : List (String × Option Tree)) :
    lines ids count ((k,some t) :: fs) = line k (canonical.fieldText ids count (k,t)) ++ lines ids count fs := by
  simp [lines, present]

theorem lines_unlessEmpty {ids : ℕ → Name} {count : ℕ} {k : String} (hk : k ≠ "resources") (s : Name) (fs : List (String × Option Tree)) :
    lines ids count ((k,unlessEmpty s) :: fs) = lineUnlessEmpty k s ++ lines ids count fs := by
  unfold unlessEmpty lineUnlessEmpty
  split
  · simp [lines, present]
  · rw [lines_some, Spacing.fieldText, if_neg hk, print_string]

/-- The canonical document, line by line. -/
theorem documentText_canonical (mdio : Bool) (p : DeviceProfile) (ids : ℕ → Name) : canonical.documentText mdio p ids =
    123 :: 10 :: 32 :: 32 :: (pair "schema_version" (decimal 2) ++ (line "id" (token p.name) ++
      (lineUnlessEmpty "register_map" p.profile.registerMap ++ (lineUnlessEmpty "view" p.profile.view ++
      (line "device" (canonical.print (deviceTree p.profile)) ++ (line "transport" (canonical.print (transportTree mdio p.address)) ++
      (line "protocol" (canonical.print (protocolTree mdio p ids)) ++ (line "defaults" (canonical.print (defaultsTree mdio)) ++
      (line "resources" (canonical.rowsText ids p.regCount) ++ (line "policy" (canonical.print (policyTree mdio p ids)) ++
      (line "settings" (canonical.print (settingsTree mdio p ids)) ++
      (line "observability" (canonical.print observabilityTree) ++ [10,125])))))))))))) := by
  have hfield : ∀ k t, k ≠ "resources" → canonical.fieldText ids p.regCount (k,t) = canonical.print t := fun k t hk => if_neg hk
  obtain ⟨rest,hrest⟩ : ∃ rest, documentFields mdio p ids = ("schema_version",some (num 2)) :: rest := ⟨_,rfl⟩
  have hdocument : canonical.documentText mdio p ids =
      123 :: 10 :: 32 :: 32 :: (pair "schema_version" (decimal 2) ++ (lines ids p.regCount rest ++ [10,125])) := by
    have hfirst : present (documentFields mdio p ids) = ("schema_version",num 2) :: present rest := by
      rw [hrest]
      rfl
    rw [Spacing.documentText, hfirst, List.map_cons, Layout.lay, hfield _ _ (by decide), print_num, List.flatMap_map]
    simp [canonical, lines, line, pair, memberText]
  rw [hdocument]
  rw [documentFields, List.cons.injEq] at hrest
  rw [← hrest.2]
  simp only [lines_some, lines_unlessEmpty (k := "register_map") (by decide), lines_unlessEmpty (k := "view") (by decide), print_string,
    hfield "id" _ (by decide), hfield "device" _ (by decide), hfield "transport" _ (by decide), hfield "protocol" _ (by decide),
    hfield "defaults" _ (by decide), hfield "policy" _ (by decide), hfield "settings" _ (by decide), hfield "observability" _ (by decide)]
  have hresources : canonical.fieldText ids p.regCount ("resources",.array ((List.range p.regCount).map (resourceTree ids))) =
      canonical.rowsText ids p.regCount := if_pos rfl
  have hlast : lines ids p.regCount [] = [] := rfl
  rw [hresources, hlast]
  simp only [List.append_assoc, List.nil_append]

/-- What is written is the canonical document of the profile of version 2. -/
theorem formatText_eq (mdio : Bool) {p : DeviceProfile} (hcount : 0 < p.regCount) :
    formatText mdio p = canonical.documentText mdio (modern mdio p) (resourceId p.profile) ++ [10] := by
  have hstart : [.text (I2cJson.text "\x7b\n  \"schema_version\": 2,\n  \"id\": "),.quoted p.name].flatMap Output.bytes =
      123 :: 10 :: 32 :: 32 :: (pair "schema_version" (decimal 2) ++ line "id" (token p.name)) := by
    rw [List.flatMap_cons, List.flatMap_cons, List.flatMap_nil, Output.bytes, Output.bytes, List.append_nil]
    rfl
  have hunless : ∀ k key s, (∀ v, key ++ v = line k v) → (memberUnlessEmpty s key).flatMap Output.bytes = lineUnlessEmpty k s :=
    fun k key s hkey => by rw [memberUnlessEmpty_bytes, hkey, lineUnlessEmpty]
  have hrows : I2cJson.text ",\n  \"resources\": [\n" ++
      (((List.range p.regCount).flatMap (resourceOutput p.profile p.regCount)).flatMap Output.bytes ++ [32,32,93]) =
      line "resources" (canonical.rowsText (resourceId p.profile) p.regCount) := by
    rw [Spacing.rowsText, ← resources_eq p.profile hcount]
    generalize ((List.range p.regCount).flatMap (resourceOutput p.profile p.regCount)).flatMap Output.bytes = rows
    simp only [line, pair, List.append_assoc, List.cons_append, List.nil_append]
    rfl
  -- Each piece with what follows it, as the pieces do not end where the members end.
  have hdevice : ∀ s, (deviceOutput mdio p).flatMap Output.bytes ++ 125 :: s =
      line "device" (canonical.print (deviceTree (modernMetadata mdio p))) ++ s := fun s => by
    rw [← deviceOutput_eq, List.append_assoc, List.singleton_append]
  have htransport : ∀ s, transportText mdio p ++ s =
      125 :: (line "transport" (canonical.print (transportTree mdio p.address)) ++ 44 :: 10 :: s) := fun s => by
    rw [transportText_eq]
    simp only [line, pair, List.append_assoc, List.cons_append]
    rfl
  have hprotocol : ∀ s, 44 :: 10 :: ((protocolOutput mdio p).flatMap Output.bytes ++ 125 :: 125 :: s) =
      line "protocol" (canonical.print (protocolTree mdio p (resourceId p.profile))) ++ s := fun s => by
    rw [← protocolOutput_eq]
    simp
  have hdefaults : ∀ s, defaultsText mdio ++ s =
      125 :: 125 :: (line "defaults" (canonical.print (defaultsTree mdio)) ++ (I2cJson.text ",\n  \"resources\": [\n" ++ s)) :=
    fun s => by
      rw [defaultsText_eq]
      simp only [List.append_assoc, List.cons_append]
  have hresources : ∀ s, I2cJson.text ",\n  \"resources\": [\n" ++
      (((List.range p.regCount).flatMap (resourceOutput p.profile p.regCount)).flatMap Output.bytes ++ 32 :: 32 :: 93 :: s) =
      line "resources" (canonical.rowsText (resourceId p.profile) p.regCount) ++ s := fun s => by
    rw [← hrows]
    simp only [List.append_assoc, List.cons_append, List.nil_append]
  have hpolicy : ∀ s, (policyOutput mdio p).flatMap Output.bytes ++ 125 :: 125 :: s =
      32 :: 32 :: 93 :: (line "policy" (canonical.print (policyTree mdio p (resourceId p.profile))) ++ s) := fun s => by
    have hlines := congrArg (· ++ s) (policyOutput_eq mdio p)
    simpa only [List.append_assoc, List.cons_append, List.nil_append] using hlines
  have hsettings := settingsOutput_eq mdio (modern mdio p) p.profile
  have hone : ∀ s : Bytes, [Output.text s].flatMap Output.bytes = s := fun s => by
    rw [List.flatMap_singleton, Output.bytes]
  have hregisterMap := hunless "register_map" (I2cJson.text ",\n  \"register_map\": ") p.profile.registerMap fun v => rfl
  have hview := hunless "view" (I2cJson.text ",\n  \"view\": ") p.profile.view fun v => rfl
  rw [modern] at hsettings
  rw [documentText_canonical, modern]
  dsimp only at hsettings ⊢
  simp only [formatText, outputs, List.flatMap_append, hstart, hone, hregisterMap, hview]
  simp only [List.append_assoc, List.cons_append, List.nil_append]
  rw [htransport, hdefaults, hsettings, hpolicy, hresources, hprotocol, hdevice]
  rfl

end Bvstk.Config.Profile
