import Bvstk.Config.MdioConfig
import Bvstk.Config.I2cJson
import Bvstk.Config.ProfileVersion

/-! # MDIO configurations without a schema version

`bvstk_mdio_config_codec.c`: the reader and the writer of the older kind of device file. The
reader takes every member once, in any order, and no member it does not know.
-/
namespace Bvstk.Config.MdioJson
open CNumber (isSpace)
open I2cJson (decimal text)

abbrev Text := List UInt8

/-! ## Scanning -/

def ws (p : Text) : Text := p.dropWhile isSpace

/-- `ch`: what follows the character. -/
def ch (c : UInt8) (p : Text) : Option Text :=
  match ws p with
  | [] => none
  | d :: p => if d = c then some p else none

/-- The loop of `string`, for a buffer of `cap` bytes. -/
def stringChars (cap : ℕ) : (out : Text) → Text → Option (Text × Text)
  | out, [] => some (out,[])
  | out, c :: p =>
    if c = 34 then some (out,c :: p)
    else if c < 32 ∨ c = 92 ∨ cap ≤ out.length + 1 then none
    else stringChars cap (out ++ [c]) p

/-- `string`: there are no escapes. -/
def string (cap : ℕ) (p : Text) : Option (Text × Text) :=
  match ch 34 p with
  | none => none
  | some p =>
    match stringChars cap [] p with
    | none => none
    | some (out,p) => (ch 34 p).map (out,·)

/-- The loop of `number`. -/
def numberDigits (maximum : ℕ) : ℕ → Text → Option (ℕ × Text)
  | v, [] => some (v,[])
  | v, c :: p =>
    if digit c = false then some (v,c :: p)
    else if maximum < c.toNat - 48 ∨ (maximum - (c.toNat - 48)) / 10 < v then none
    else numberDigits maximum (v * 10 + (c.toNat - 48)) p

/-- `number`, up to `maximum`. -/
def number (maximum : ℕ) (p : Text) : Option (ℕ × Text) :=
  match ws p with
  | [] => none
  | c :: p =>
    if digit c = false then none
    else if c = 48 ∧ p.head?.any digit = true then none
    else numberDigits maximum 0 (c :: p)

/-- `next`: whether there is one more item; nothing if the text is invalid. -/
def next (close : UInt8) (p : Text) : Option (Bool × Text) :=
  match ch close p with
  | some p => some (false,p)
  | none =>
    match ch 44 p with
    | none => none
    | some p => if (ws p).head? = some close then none else some (true,ws p)

/-- A loop over items with commas between them. -/
def items {σ : Type} (close : UInt8) (item : σ → Text → Option (σ × Text)) : (left : ℕ) → σ → Text → Option (σ × Text)
  | 0, _, _ => none
  | left + 1, s, p =>
    match item s p with
    | none => none
    | some (s,p) =>
      match next close p with
      | none => none
      | some (more,p) => if more = true then items close item left s p else some (s,p)

/-! ## Lists -/

/-- One item of a list behind those in `xs`. -/
def listItem {α : Type} (capacity : ℕ) (item : Text → Option (α × Text)) (xs : List α) (p : Text) :
    Option (List α × Text) :=
  if capacity ≤ xs.length then none else (item p).map fun (x,p) => (xs ++ [x],p)

/-- A list in brackets of at most `capacity` items. -/
def listOf {α : Type} (capacity : ℕ) (item : Text → Option (α × Text)) (p : Text) : Option (List α × Text) :=
  match ch 91 p with
  | none => none
  | some p =>
    match ch 93 p with
    | some p => some ([],p)
    | none => items 93 (listItem capacity item) (p.length + 1) [] p

inductive Field where
  | reg | val | mask
  deriving DecidableEq, Repr

/-- `reg`, `val` and `mask`. -/
def Field.key : Field → Text
  | .reg => [114,101,103]
  | .val => [118,97,108]
  | .mask => [109,97,115,107]

def Field.maximum : Field → ℕ
  | .reg => 31
  | .val => 65535
  | .mask => 65535

def Field.set (r : MdioRule) (v : ℕ) : Field → MdioRule
  | .reg => { r with reg := UInt8.ofNat v }
  | .val => { r with val := UInt16.ofNat v }
  | .mask => { r with mask := UInt16.ofNat v }

structure EntryScan where
  rule : MdioRule
  seen : List Field

/-- One field of an entry that may have the fields in `known`; its name is read into `cap` bytes. -/
def entryField (cap : ℕ) (known : List Field) (s : EntryScan) (p : Text) : Option (EntryScan × Text) :=
  match string cap p with
  | none => none
  | some (key,p) =>
    match ch 58 p with
    | none => none
    | some p =>
      match known.find? (·.key = key) with
      | none => none
      | some f =>
        if f ∈ s.seen then none
        else (number f.maximum p).map fun (v,p) => (⟨f.set s.rule v,f :: s.seen⟩,p)

/-- An entry in braces; a register and a value are needed. -/
def entry (cap : ℕ) (known : List Field) (p : Text) : Option (MdioRule × Text) :=
  match ch 123 p with
  | none => none
  | some p =>
    match items 125 (entryField cap known) (p.length + 1) ⟨⟨0,0,0xFFFF⟩,[]⟩ p with
    | none => none
    | some (s,p) => if Field.reg ∈ s.seen ∧ Field.val ∈ s.seen then some (s.rule,p) else none

/-- One rule; the older lists hold registers only, for any value. -/
def rule (legacy : Bool) (p : Text) : Option (MdioRule × Text) :=
  if legacy = true then (number 31 p).map fun (v,p) => (⟨UInt8.ofNat v,0,0⟩,p)
  else entry 12 [.reg,.val,.mask] p

/-- `rules`. -/
def rules (legacy : Bool) : Text → Option (List MdioRule × Text) := listOf mdioRulesMax (rule legacy)

/-! ## Members -/

/-- The members a file may have, as in `keys`. -/
inductive Key where
  | name | phyAddr | regCount | policy | autopollEnabled | autopollRegDelayMs | autopollCycleDelayMs | autopollRegs
  | whitelist | blacklist | settings | writeAllowRegs | writeDenyRegs
  deriving DecidableEq, Repr

def wordWhitelist : Text := [119,104,105,116,101,108,105,115,116]
def wordBlacklist : Text := [98,108,97,99,107,108,105,115,116]

/-- The name of a member. -/
def Key.text : Key → Text
  | .name => [110,97,109,101]
  | .phyAddr => [112,104,121,95,97,100,100,114]
  | .regCount => [114,101,103,95,99,111,117,110,116]
  | .policy => [112,111,108,105,99,121]
  | .autopollEnabled => [97,117,116,111,112,111,108,108,95,101,110,97,98,108,101,100]
  | .autopollRegDelayMs => [97,117,116,111,112,111,108,108,95,114,101,103,95,100,101,108,97,121,95,109,115]
  | .autopollCycleDelayMs => [97,117,116,111,112,111,108,108,95,99,121,99,108,101,95,100,101,108,97,121,95,109,115]
  | .autopollRegs => [97,117,116,111,112,111,108,108,95,114,101,103,115]
  | .whitelist => wordWhitelist
  | .blacklist => wordBlacklist
  | .settings => [115,101,116,116,105,110,103,115]
  | .writeAllowRegs => [119,114,105,116,101,95,97,108,108,111,119,95,114,101,103,115]
  | .writeDenyRegs => [119,114,105,116,101,95,100,101,110,121,95,114,101,103,115]

def allKeys : List Key :=
  [.name,.phyAddr,.regCount,.policy,.autopollEnabled,.autopollRegDelayMs,.autopollCycleDelayMs,.autopollRegs,.whitelist,
    .blacklist,.settings,.writeAllowRegs,.writeDenyRegs]

structure Scan where
  config : MdioPhyConfig
  seen : List Key

def wordTrue : Text := [116,114,117,101]
def wordFalse : Text := [102,97,108,115,101]

/-- A setting is an entry without a mask; its field names share the buffer for member names. -/
def setting (p : Text) : Option (MdioSetting × Text) := (entry 40 [.reg,.val] p).map fun (r,p) => (⟨r.reg,r.val⟩,p)

/-- The value of a member. -/
def memberValue (c : MdioPhyConfig) (seen : List Key) (p : Text) : Key → Option (MdioPhyConfig × Text)
  | .name => (string mdioNameMax p).map fun (name,p) => ({ c with name := name },p)
  | .policy =>
    match string 40 p with
    | none => none
    | some (word,p) =>
      if word = wordWhitelist then some ({ c with policy := 0 },p)
      else if word = wordBlacklist then some ({ c with policy := 1 },p)
      else none
  | .autopollEnabled =>
    if wordTrue.isPrefixOf (ws p) = true then some ({ c with autopollEnabled := true },(ws p).drop 4)
    else if wordFalse.isPrefixOf (ws p) = true then some (c,(ws p).drop 5)
    else none
  | .autopollRegs =>
    (listOf mdioAutopollRegsMax (fun p => (number 31 p).map fun (v,p) => (UInt8.ofNat v,p)) p).map fun (regs,p) =>
      ({ c with autopollRegs := regs },p)
  | .whitelist =>
    if Key.writeAllowRegs ∈ seen then none else (rules false p).map fun (rules,p) => ({ c with whitelist := rules },p)
  | .writeAllowRegs =>
    if Key.whitelist ∈ seen then none else (rules true p).map fun (rules,p) => ({ c with whitelist := rules },p)
  | .blacklist =>
    if Key.writeDenyRegs ∈ seen then none else (rules false p).map fun (rules,p) => ({ c with blacklist := rules },p)
  | .writeDenyRegs =>
    if Key.blacklist ∈ seen then none else (rules true p).map fun (rules,p) => ({ c with blacklist := rules },p)
  | .settings =>
    (listOf mdioSettingsMax setting p).map fun (settings,p) =>
      ({ c with settings := settings, settingsSpare := List.replicate (4 * (mdioSettingsMax - settings.length)) 0 },p)
  | .phyAddr => (number 31 p).map fun (v,p) => ({ c with phyAddr := UInt8.ofNat v },p)
  | .regCount => (number 32 p).map fun (v,p) => ({ c with regCount := UInt8.ofNat v },p)
  | .autopollRegDelayMs => (number 600000 p).map fun (v,p) => ({ c with autopollRegDelayMs := UInt32.ofNat v },p)
  | .autopollCycleDelayMs => (number 600000 p).map fun (v,p) => ({ c with autopollCycleDelayMs := UInt32.ofNat v },p)

/-- One member of the document. -/
def member (s : Scan) (p : Text) : Option (Scan × Text) :=
  match string 40 p with
  | none => none
  | some (key,p) =>
    match ch 58 p with
    | none => none
    | some p =>
      match allKeys.find? (·.text = key) with
      | none => none
      | some k => if k ∈ s.seen then none else (memberValue s.config s.seen p k).map fun (c,p) => (⟨c,k :: s.seen⟩,p)

/-- A configuration of zeros, but for the delay between two rounds of polling. -/
def initialConfig : MdioPhyConfig :=
  ⟨[],[],0,0,0,false,[],0,50,[],[],[],List.replicate (4 * mdioSettingsMax) 0,.zero⟩

/-- `bvstk_mdio_config_parse`; profiles of version 2 are for `parseProfile`. -/
def parse (parseProfile : Text → Except Status MdioPhyConfig) (json : Text) : Except Status MdioPhyConfig :=
  match profileVersion json with
  | .error status => .error status
  | .ok version =>
    if version = 2 then parseProfile json
    else
      match ch 123 (json.takeWhile (· != 0)) with
      | none => .error .malformed
      | some p =>
        match items 125 member (p.length + 1) ⟨initialConfig,[]⟩ p with
        | none => .error .malformed
        | some (s,p) =>
          if ws p ≠ [] ∨ ¬(∀ k ∈ [Key.name,.phyAddr,.regCount,.policy], k ∈ s.seen) ∨ mdioConfigValidate s.config ≠ .ok then
            .error .malformed
          else .ok s.config

/-! ## Writing -/

/-- The texts of a list, with `, ` in front of all but the first. -/
def writeList {α : Type} (write : α → Text) : List α → Text
  | [] => []
  | x :: xs => write x ++ xs.flatMap fun y => text ", " ++ write y

def writeRule (r : MdioRule) : Text :=
  text "\x7b\"reg\": " ++ decimal r.reg.toNat ++ text ", \"val\": " ++ decimal r.val.toNat ++ text ", \"mask\": " ++
    decimal r.mask.toNat ++ text "\x7d"

def writeSetting (s : MdioSetting) : Text :=
  text "\x7b\"reg\": " ++ decimal s.reg.toNat ++ text ", \"val\": " ++ decimal s.val.toNat ++ text "\x7d"

def formatText (c : MdioPhyConfig) : Text :=
  text "\x7b\n  \"name\": \"" ++ c.name ++ text "\",\n  \"phy_addr\": " ++ decimal c.phyAddr.toNat ++
    text ",\n  \"reg_count\": " ++ decimal c.regCount.toNat ++ text ",\n  \"policy\": \"" ++
    (if c.policy = 0 then wordWhitelist else wordBlacklist) ++ text "\",\n  \"autopoll_enabled\": " ++
    (if c.autopollEnabled = true then wordTrue else wordFalse) ++ text ",\n  \"autopoll_reg_delay_ms\": " ++
    decimal c.autopollRegDelayMs.toNat ++ text ",\n  \"autopoll_cycle_delay_ms\": " ++
    decimal c.autopollCycleDelayMs.toNat ++ text ",\n  \"autopoll_regs\": [" ++
    writeList (fun r : UInt8 => decimal r.toNat) c.autopollRegs ++ text "],\n  \"whitelist\": [" ++
    writeList writeRule c.whitelist ++ text "],\n  \"blacklist\": [" ++ writeList writeRule c.blacklist ++
    text "],\n  \"settings\": [" ++ writeList writeSetting c.settings ++ text "]\n\x7d\n"

/-- `bvstk_mdio_config_format`, into a buffer of `cap` bytes. -/
def format (c : MdioPhyConfig) (cap : ℕ) : Except Status Text :=
  if cap = 0 ∨ mdioConfigValidate c ≠ .ok then .error .malformed
  else if (formatText c).length < cap then .ok (formatText c)
  else .error .range

end Bvstk.Config.MdioJson
