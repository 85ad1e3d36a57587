import Bvstk.Config.I2cConfig
import Bvstk.Config.ProfileVersion
import Bvstk.Library.CNumber

/-! # I2C configurations without a schema version

`bvstk_i2c_config_codec.c`: a configuration read from the older kind of device file, and
written as such a file. The reader looks keys up wherever they stand in the text.
-/
namespace Bvstk.Config.I2cJson
open CNumber

abbrev Text := List UInt8

/-- `ULONG_MAX`, on 32-bit machines; `UINT32_MAX` is the same number. -/
def ulongMax : ℕ := 4294967295

def quote : UInt8 := 34
def comma : UInt8 := 44
def colon : UInt8 := 58
def backslash : UInt8 := 92
def openBracket : UInt8 := 91
def closeBracket : UInt8 := 93
def openBrace : UInt8 := 123
def closeBrace : UInt8 := 125

/-! ## Reading -/

def skipWs (cursor : Text) : Text := cursor.dropWhile isSpace

/-- What follows the first occurrence of a pattern, as `strstr` finds it. -/
def afterPattern (pattern : Text) : Text → Option Text
  | [] => if pattern = [] then some [] else none
  | c :: p => if pattern.isPrefixOf (c :: p) then some ((c :: p).drop pattern.length) else afterPattern pattern p

def findKeyFrom (pattern : Text) : (turns : ℕ) → Text → Option Text
  | 0, _ => none
  | turns + 1, cursor =>
    match afterPattern pattern cursor with
    | none => none
    | some rest =>
      match skipWs rest with
      | [] => none
      | c :: value => if c = colon then some (skipWs value) else findKeyFrom pattern turns (c :: value)

/-- `find_key`. -/
def findKey (json key : Text) : Option Text := findKeyFrom (quote :: key ++ [quote]) (json.length + 1) json

/-- The character that follows a backslash. -/
def escaped (c : UInt8) : UInt8 :=
  if c = 110 then 10 else if c = 114 then 13 else if c = 116 then 9 else c

/-- The loop of `parse_string`, with room for `room` more characters. -/
def stringChars : (room : ℕ) → (output : Text) → Text → Option (Text × Text)
  | _, _, [] => none
  | room, output, c :: cursor =>
    if c = quote then some (output,cursor)
    else if c = backslash then
      match room, cursor with
      | _, [] => none
      | 0, _ => none
      | room + 1, d :: cursor => stringChars room (output ++ [escaped d]) cursor
    else
      match room with
      | 0 => none
      | room + 1 => stringChars room (output ++ [c]) cursor

/-- `parse_string` for a buffer of `capacity` bytes. -/
def parseString (cursor : Text) (capacity : ℕ) : Option (Text × Text) :=
  match skipWs cursor with
  | [] => none
  | c :: cursor => if c ≠ quote then none else stringChars (capacity - 1) [] cursor

/-- `parse_u32`: a number, or a string that is one. -/
def parseU32 (cursor : Text) : Option (ℕ × Text) :=
  match skipWs cursor with
  | [] => none
  | c :: rest =>
    if c = quote then
      match parseString (c :: rest) 32 with
      | none => none
      | some (number,next) =>
        match strtoul ulongMax (number.takeWhile (· != 0)) 0 with
        | none => none
        | some parsed => if parsed.rest ≠ [] then none else some (parsed.value,next)
    else (strtoul ulongMax (c :: rest) 0).map fun parsed => (parsed.value,parsed.rest)

def wordTrue : Text := [116,114,117,101]
def wordFalse : Text := [102,97,108,115,101]
def wordNull : Text := [110,117,108,108]

/-- `skip_simple_value`. -/
def skipSimpleValue (cursor : Text) : Option Text :=
  match skipWs cursor with
  | [] => none
  | c :: rest =>
    if c = quote then (parseString (c :: rest) 8).map (·.2)
    else if wordTrue.isPrefixOf (c :: rest) then some ((c :: rest).drop 4)
    else if wordFalse.isPrefixOf (c :: rest) then some ((c :: rest).drop 5)
    else if wordNull.isPrefixOf (c :: rest) then some ((c :: rest).drop 4)
    else (parseU32 (c :: rest)).map (·.2)

def keyReg : Text := [114,101,103]
def keyVal : Text := [118,97,108]

/-- The members of a rule, as far as they are read. -/
structure RuleMembers where
  reg : Option ℕ
  val : Option ℕ

/-- One member of a rule, up to what follows its value. -/
def ruleMember (m : RuleMembers) (cursor : Text) : Option (RuleMembers × Text) :=
  match parseString cursor 24 with
  | none => none
  | some (key,cursor) =>
    match skipWs cursor with
    | [] => none
    | c :: cursor =>
      if c ≠ colon then none
      else if key.takeWhile (· != 0) = keyReg then (parseU32 cursor).map fun p => ({ m with reg := some p.1 },p.2)
      else if key.takeWhile (· != 0) = keyVal then (parseU32 cursor).map fun p => ({ m with val := some p.1 },p.2)
      else (skipSimpleValue cursor).map fun cursor => (m,cursor)

/-- The loop over the members of a rule. -/
def ruleMembers : (turns : ℕ) → RuleMembers → Text → Option (RuleMembers × Text)
  | 0, _, _ => none
  | turns + 1, m, cursor =>
    match skipWs cursor with
    | [] => none
    | c :: rest =>
      if c = closeBrace then some (m,rest)
      else
        match ruleMember m (c :: rest) with
        | none => none
        | some (m,cursor) =>
          match skipWs cursor with
          | [] => none
          | c :: cursor =>
            if c = comma then ruleMembers turns m cursor else if c = closeBrace then some (m,cursor) else none

/-- The loop over the rules. -/
def rulesFrom (capacity : ℕ) : (turns : ℕ) → (rules : List I2cRule) → Text → Option (List I2cRule)
  | 0, _, _ => none
  | turns + 1, rules, cursor =>
    match skipWs cursor with
    | [] => none
    | c :: cursor =>
      if c = closeBracket then some rules
      else if c ≠ openBrace then none
      else
        match ruleMembers (cursor.length + 1) ⟨none,none⟩ cursor with
        | none => none
        | some (⟨some reg,some value⟩,cursor) =>
          if 255 < reg ∨ 255 < value ∨ capacity ≤ rules.length then none
          else
            let rules := rules ++ [⟨UInt8.ofNat reg,UInt8.ofNat value⟩]
            match skipWs cursor with
            | [] => none
            | c :: cursor =>
              if c = comma then rulesFrom capacity turns rules cursor else if c = closeBracket then some rules else none
        | some _ => none

/-- `parse_rule_array`. -/
def parseRuleArray (cursor : Text) (capacity : ℕ) : Option (List I2cRule) :=
  match skipWs cursor with
  | [] => none
  | c :: cursor => if c ≠ openBracket then none else rulesFrom capacity (cursor.length + 1) [] cursor

/-- `name`, `addr_7b`, `reg_count`, `max_value_code`, `policy`, `whitelist`, `blacklist` and `settings`. -/
def keyName : Text := [110,97,109,101]
def keyAddr7b : Text := [97,100,100,114,95,55,98]
def keyRegCount : Text := [114,101,103,95,99,111,117,110,116]
def keyMaxValueCode : Text := [109,97,120,95,118,97,108,117,101,95,99,111,100,101]
def keyPolicy : Text := [112,111,108,105,99,121]
def keyWhitelist : Text := [119,104,105,116,101,108,105,115,116]
def keyBlacklist : Text := [98,108,97,99,107,108,105,115,116]
def keySettings : Text := [115,101,116,116,105,110,103,115]

/-- A list of rules; none if the key is missing. -/
def parseRules (json key : Text) (capacity : ℕ) : Option (List I2cRule) :=
  match findKey json key with
  | none => some []
  | some value => parseRuleArray value capacity

/-- A number up to `maximum`. -/
def parseNumber (json key : Text) (maximum : ℕ) : Option ℕ :=
  match (findKey json key).bind parseU32 with
  | none => none
  | some (number,_) => if maximum < number then none else some number

/-- A string, up to a NUL. -/
def parseText (json key : Text) (capacity : ℕ) : Option Text :=
  ((findKey json key).bind (parseString · capacity)).map fun p => p.1.takeWhile (· != 0)

def policyOf (text : Text) : Option PolicyMode :=
  if sameIgnoringCase text keyWhitelist then some .whitelist
  else if sameIgnoringCase text keyBlacklist then some .blacklist
  else none

/-- `bvstk_i2c_config_parse_json` for a text that has no schema version. -/
def parseJson (json : Text) : Option I2cFileConfig :=
  match parseText json keyName i2cNameMax, parseNumber json keyAddr7b 0x7F, parseNumber json keyRegCount i2cMaxRegCount,
    parseNumber json keyMaxValueCode 64, (parseText json keyPolicy 16).bind policyOf with
  | some name, some addr7b, some regCount, some maxValueCode, some policy =>
    match parseRules json keyWhitelist i2cRulesMax, parseRules json keyBlacklist i2cRulesMax,
      parseRules json keySettings i2cSettingsMax with
    | some whitelist, some blacklist, some settings =>
      let config : I2cFileConfig :=
        ⟨⟨name,UInt8.ofNat addr7b,regCount,UInt8.ofNat maxValueCode,policy.code,whitelist,blacklist,.zero⟩,[],settings⟩
      if i2cConfigValidate config = .ok then some config else none
    | _, _, _ => none
  | _, _, _, _, _ => none

/-- `bvstk_i2c_config_parse_json`; profiles of version 2 are for `parseProfile`. -/
def parseDocument (parseProfile : Text → Option I2cFileConfig) (json : Text) : Option I2cFileConfig :=
  match profileVersion json with
  | .error _ => none
  | .ok version => if version = 2 then parseProfile json else parseJson (json.takeWhile (· != 0))

theorem parseJson_valid {json : Text} {config : I2cFileConfig} (h : parseJson json = some config) : config.Valid := by
  unfold parseJson at h
  split at h
  · split at h
    · dsimp only at h
      split_ifs at h with hvalid
      cases h
      exact i2cConfigValidate_eq_ok.mp hvalid
    · cases h
  · cases h

/-! ## Writing -/

/-- `%u`. -/
def decimal (n : ℕ) : Text := (Nat.toDigits 10 n).map fun c => UInt8.ofNat c.toNat

def text (s : String) : Text := s.toList.map fun c => UInt8.ofNat c.toNat

/-- One character of `writer_append_json_string`. -/
def jsonChar (c : UInt8) : Option Text :=
  if c = quote then some [backslash,quote]
  else if c = backslash then some [backslash,backslash]
  else if c = 10 then some [backslash,110]
  else if c = 13 then some [backslash,114]
  else if c = 9 then some [backslash,116]
  else if c < 32 then none
  else some [c]

def jsonString (value : Text) : Option Text :=
  (value.mapM jsonChar).map fun chars => quote :: chars.flatten ++ [quote]

/-- `writer_append_rules`. -/
def writeRules : List I2cRule → Text
  | [] => []
  | r :: rules =>
    text "    \x7b \"reg\": " ++ decimal r.reg.toNat ++ text ", \"val\": " ++ decimal r.val.toNat ++ text " \x7d" ++
      (if rules = [] then [] else [comma]) ++ [10] ++ writeRules rules

/-- The text of `bvstk_i2c_config_serialize_json`, if a buffer of `capacity` bytes has room for it. -/
def serializeJson (config : I2cFileConfig) (capacity : ℕ) : Option Text :=
  if i2cConfigValidate config ≠ .ok then none
  else
    match jsonString config.name with
    | none => none
    | some name =>
      let json := text "\x7b\n  \"name\": " ++ name ++ text ",\n  \"addr_7b\": " ++ decimal config.addr7b.toNat ++
        text ",\n  \"reg_count\": " ++ decimal config.regCount ++ text ",\n  \"max_value_code\": " ++
        decimal config.maxValueCode.toNat ++ text ",\n  \"policy\": \"" ++
        (if config.policy = PolicyMode.blacklist.code then keyBlacklist else keyWhitelist) ++
        text "\",\n  \"whitelist\": [\n" ++ writeRules config.whitelist ++ text "  ],\n  \"blacklist\": [\n" ++
        writeRules config.blacklist ++ text "  ],\n  \"settings\": [\n" ++ writeRules config.settings ++ text "  ]\n\x7d\n"
      if json.length < capacity then some json else none

end Bvstk.Config.I2cJson
