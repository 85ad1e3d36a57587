import Bvstk.Console.Words
import Bvstk.I2c.ConfigStore

/-! # The body of an I2C configuration request

`api_handle_i2c_put` of `http_fs_routes.c` with the functions that look for a key, a string
and a list of rules in a body. They read on from where the key is first found, without
parsing what is around it.
-/
namespace Bvstk.Web
open Config I2c CNumber
open Console (ulongMax)

abbrev Text := List UInt8

def quote : UInt8 := 34
def comma : UInt8 := 44
def colonSign : UInt8 := 58
def backslashSign : UInt8 := 92

/-- `name`, `policy`, `whitelist`, `blacklist`, `reg` and `val`. -/
def keyName : Text := [110,97,109,101]
def keyPolicy : Text := [112,111,108,105,99,121]
def keyWhitelist : Text := [119,104,105,116,101,108,105,115,116]
def keyBlacklist : Text := [98,108,97,99,107,108,105,115,116]
def keyReg : Text := [114,101,103]
def keyVal : Text := [118,97,108]

/-! ## Looking for a key -/

/-- `json_skip_ws`. -/
def jsonSkipWs (p : Text) : Text := p.dropWhile isSpace

/-- What follows the first occurrence of a pattern, as `strstr` finds it. -/
def afterPattern (pattern : Text) : Text → Option Text
  | [] => if pattern = [] then some [] else none
  | c :: p => if pattern.isPrefixOf (c :: p) then some ((c :: p).drop pattern.length) else afterPattern pattern p

/-- The loop of `json_find_key`: an occurrence counts if a colon follows. -/
def findKeyFrom (pattern : Text) : (turns : ℕ) → Text → Option Text
  | 0, _ => none
  | turns + 1, p =>
    match afterPattern pattern p with
    | none => none
    | some q =>
      match jsonSkipWs q with
      | [] => none
      | c :: rest => if c = colonSign then some (jsonSkipWs rest) else findKeyFrom pattern turns (c :: rest)

/-- `json_find_key`. -/
def jsonFindKey (json key : Text) : Option Text := findKeyFrom (quote :: key ++ [quote]) (json.length + 1) json

/-! ## Strings -/

/-- The loop of `json_get_string_val`, with room for `room` characters. -/
def copyString : (room : ℕ) → Text → Text × Text
  | 0, p => ([],p)
  | _, [] => ([],[])
  | room + 1, c :: p =>
    if c = quote then ([],c :: p)
    else if c = backslashSign then
      match p with
      | [] => ([c],[])
      | d :: p => (d :: (copyString room p).1,(copyString room p).2)
    else (c :: (copyString room p).1,(copyString room p).2)

/-- `json_get_string_val`: the string, if it ends within the buffer. -/
def jsonGetStringVal (json key : Text) (size : ℕ) : Option Text :=
  match jsonFindKey json key with
  | some (c :: p) =>
    if c ≠ quote then none
    else
      match copyString (size - 1) p with
      | (value,d :: _) => if d = quote then some value else none
      | (_,[]) => none
  | _ => none

/-! ## Rules -/

/-- The members of a rule, as far as they are read. -/
structure RuleMembers where
  reg : Option ℕ
  val : Option ℕ

def RuleMembers.set (m : RuleMembers) (key : Text) (number : ℕ) : RuleMembers :=
  if key = keyReg then { m with reg := some number }
  else if key = keyVal then { m with val := some number }
  else m

/-- The loop over the members, up to the end of the object or of the text. -/
def ruleMembers : (turns : ℕ) → RuleMembers → Text → Option (RuleMembers × Text)
  | 0, _, _ => none
  | _, m, [] => some (m,[])
  | turns + 1, m, p =>
    match jsonSkipWs p with
    | [] => none
    | c :: p =>
      if c = 125 then some (m,p)
      else if c ≠ quote then none
      else
        let key := p.takeWhile (· != quote)
        match p.drop key.length with
        | [] => none
        | _ :: p =>
          match jsonSkipWs p with
          | [] => none
          | c :: p =>
            if c ≠ colonSign then none
            else
              match strtoul ulongMax (jsonSkipWs p) 0 with
              | none => none
              | some number =>
                match jsonSkipWs number.rest with
                | [] => ruleMembers turns (m.set key number.value) []
                | c :: p =>
                  if c = comma then ruleMembers turns (m.set key number.value) p
                  else if c = 125 then some (m.set key number.value,p)
                  else ruleMembers turns (m.set key number.value) (c :: p)

/-- A rule of two bytes. -/
def RuleMembers.rule (m : RuleMembers) : Option I2cRule :=
  match m.reg, m.val with
  | some reg, some val => if 255 < reg ∨ 255 < val then none else some ⟨UInt8.ofNat reg,UInt8.ofNat val⟩
  | _, _ => none

/-- The loop over the rules of `json_parse_rules_array`. -/
def rulesFrom : (turns : ℕ) → (rules : List I2cRule) → Text → Option (List I2cRule)
  | 0, _, _ => none
  | _, _, [] => none
  | turns + 1, rules, p =>
    match jsonSkipWs p with
    | [] => none
    | c :: p =>
      if c = 93 then some rules
      else if i2cRulesMax ≤ rules.length ∨ c ≠ 123 then none
      else
        match ruleMembers (p.length + 1) ⟨none,none⟩ p with
        | none => none
        | some (m,p) =>
          match m.rule with
          | none => none
          | some rule =>
            match jsonSkipWs p with
            | [] => none
            | c :: p =>
              if c = comma then rulesFrom turns (rules ++ [rule]) p
              else if c = 93 then some (rules ++ [rule])
              else rulesFrom turns (rules ++ [rule]) (c :: p)

/-- `json_parse_rules_array`. -/
def jsonParseRulesArray (json key : Text) : Option (List I2cRule) :=
  match jsonFindKey json key with
  | none => none
  | some p =>
    match jsonSkipWs p with
    | [] => none
    | c :: p => if c ≠ 91 then none else rulesFrom (p.length + 1) [] p

/-! ## The request -/

/-- The replies. -/
inductive PutReply where
  | emptyBody | missingName | unknownDevice | badPolicy | badWhitelist | badBlacklist | setFailed | ok
  deriving DecidableEq, Repr

def PutReply.code : PutReply → ℕ
  | .ok => 200
  | .unknownDevice => 404
  | .setFailed => 500
  | _ => 400

def PutReply.text : PutReply → String
  | .emptyBody => "empty body"
  | .missingName => "missing name"
  | .unknownDevice => "unknown device"
  | .badPolicy => "bad policy"
  | .badWhitelist => "bad whitelist"
  | .badBlacklist => "bad blacklist"
  | .setFailed => "set failed"
  | .ok => "ok"

/-- The policy of a body; the old one if it says nothing. -/
def putPolicy (body : Text) (old : ℕ) : Except PutReply ℕ :=
  match jsonGetStringVal body keyPolicy 16 with
  | none => .ok old
  | some policy =>
    if policy = [] then .ok old
    else if sameIgnoringCase policy keyWhitelist then .ok PolicyMode.whitelist.code
    else if sameIgnoringCase policy keyBlacklist then .ok PolicyMode.blacklist.code
    else .error .badPolicy

/-- One of the lists; the old one if the body does not have it. -/
def putRules (body key : Text) (old : List I2cRule) (bad : PutReply) : Except PutReply (List I2cRule) :=
  if jsonFindKey body key = none then .ok old
  else
    match jsonParseRulesArray body key with
    | none => .error bad
    | some rules => .ok rules

/-- The configuration that a body asks for, over a stored one. -/
def putConfig (body : Text) (current : I2cFileConfig) : Except PutReply I2cFileConfig :=
  match putPolicy body current.policy with
  | .error reply => .error reply
  | .ok policy =>
    match putRules body keyWhitelist current.whitelist .badWhitelist with
    | .error reply => .error reply
    | .ok whitelist =>
      match putRules body keyBlacklist current.blacklist .badBlacklist with
      | .error reply => .error reply
      | .ok blacklist =>
        .ok { current with policy := policy, whitelist := whitelist, blacklist := blacklist }

/-- What `read_body_to_buf` leaves of a body: the buffer, up to a NUL. -/
def bodyText (body : Text) : Text := (body.take 2047).takeWhile (· != 0)

/-- The part of `api_handle_i2c_put` before anything is applied. -/
def apiHandleI2cPut (store : ConfigStore) (body : Text) : Except PutReply I2cFileConfig :=
  if body = [] then .error .emptyBody
  else
    match jsonGetStringVal (bodyText body) keyName i2cNameMax with
    | none => .error .missingName
    | some name =>
      if name = [] then .error .missingName
      else
        match (configStoreFindByName store name).bind (store[·]?) with
        | none => .error .unknownDevice
        | some current => putConfig (bodyText body) current

end Bvstk.Web
