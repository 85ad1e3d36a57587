import Bvstk.Config.I2cJson
import Bvstk.Surfaces.Linked

/-! # Operations of several tasks, step by step

One task serves DCP2, one serves HTTP, and there is one for each console. Between the steps
of one of them the others run. All that is asked for here is for one device.

DCP2 edits the policy of the service and then copies it to the store. The others prepare a
configuration, apply it to the service and put it into the store: a console from a copy of
the stored one, the web interface from a body, if the revision that it was written for is
still the current one.
-/
namespace Bvstk.Surfaces
open Config I2c Console RuleSets
open Web (Text)

variable {ε : Type}

/-! ## The web interface -/

def uiJsonCap : ℕ := 65537

/-- `snapshot` of `http_ui_bus.c`: the live configuration with what only the store has. -/
def snapshot (x : Runtime ε) (deviceId : ℕ) : Option I2cFileConfig :=
  match masterServiceGetConfig x.world.state deviceId with
  | none => none
  | some live =>
    match (configStoreFindByName x.store live.name).bind (x.store[·]?) with
    | none => none
    | some stored => some ⟨{ live.toI2cDeviceConfig with profile := stored.profile },stored.fileName,stored.settings⟩

/-- `bvstk_http_revision`. -/
def revisionOf (s : Text) : UInt32 := s.foldl (fun h c => (h ^^^ c.toUInt32) * 16777619) 2166136261

def hexDigit (n : ℕ) : UInt8 := if n < 10 then UInt8.ofNat (48 + n) else UInt8.ofNat (87 + n)

/-- `%08lx`. -/
def revisionText (h : UInt32) : Text := (List.range 8).map fun i => hexDigit (h.toNat / 16^(7 - i) % 16)

/-- The revision of a device, if it can be had. -/
def currentRevision (x : Runtime ε) (deviceId : ℕ) : Option Text :=
  ((snapshot x deviceId).bind (I2cJson.serializeJson · uiJsonCap)).map fun json => revisionText (revisionOf json)

/-- The second half of an `apply` request, up to the application: what was current and what
comes next. `admits` is the check of the form of a body. -/
def uiPrepare (admits : Text → Bool) (x : Runtime ε) (deviceId : ℕ) (name revision body : Text) :
    Option (I2cFileConfig × I2cFileConfig) :=
  if admits body = false then none
  else
    match I2cJson.parseJson body, snapshot x deviceId with
    | some next, some current =>
      if next.name ≠ name ∨ currentRevision x deviceId ≠ some revision ∨ next.regCount ≠ current.regCount ∨
          next.maxValueCode ≠ current.maxValueCode ∨ next.settings ≠ current.settings then none
      else
        match masterServiceFindByAddr x.world.state next.addr7b with
        | none => some (current,⟨{ next.toI2cDeviceConfig with profile := current.profile },current.fileName,next.settings⟩)
        | some other =>
          if other ≠ deviceId then none
          else some (current,⟨{ next.toI2cDeviceConfig with profile := current.profile },current.fileName,next.settings⟩)
    | _, _ => none

/-! ## Tasks -/

inductive Task where
  | dcp2 | http | console (n : ℕ)
  deriving DecidableEq, Repr

abbrev PolicyChange := Change I2cRule I2cRequest

/-- Where a task is, with the change that it was asked for. -/
inductive Progress where
  | idle
  | edited (opcode : ℕ) (body : List UInt8) (change : PolicyChange)
  | opened (name revision : Text)
  | ready (copy next : I2cFileConfig) (change : PolicyChange)
  | applied (next : I2cFileConfig) (change : PolicyChange)

/-- The change that has taken effect but is not acknowledged yet. -/
def Progress.effect : Progress → Option PolicyChange
  | .edited _ _ change => some change
  | .applied _ change => some change
  | _ => none

/-- The next atomic step of a task. -/
inductive Action where
  | edit (opcode : ℕ) (body : List UInt8)
  | copy (token : Word) (words : List Word)
  | ask (name revision : Text)
  | prepare (body : Text)
  | proceed

/-- The system with its tasks. Nothing reads the two histories: the changes that took effect
and wait to be acknowledged, oldest first, and those acknowledged. -/
structure Node (ε : Type) where
  runtime : Runtime ε
  progress : Task → Progress
  effective : List (Task × PolicyChange)
  acked : List PolicyChange

def Node.start (x : Runtime ε) : Node ε := ⟨x,fun _ => .idle,[],[]⟩

def Node.setProgress (n : Node ε) (task : Task) (p : Progress) : Node ε :=
  { n with progress := Function.update n.progress task p }

/-- A change takes effect. -/
def Node.takesEffect (n : Node ε) (task : Task) (w : I2cWorld ε) (p : Progress) (change : PolicyChange) : Node ε :=
  { n.setProgress task p with
    runtime := { n.runtime with world := w }
    effective := n.effective ++ [(task,change)] }

/-- An operation is over, acknowledged or not. -/
def Node.finish (n : Node ε) (task : Task) (x : Runtime ε) (change : PolicyChange) (ok : Bool) : Node ε :=
  { runtime := x
    progress := Function.update n.progress task .idle
    effective := n.effective.eraseP fun p => decide (p.1 = task)
    acked := if ok then n.acked ++ [change] else n.acked }

/-- The list and the rule that a DCP2 request names. -/
def bodySide (body : List UInt8) : Side := if (body.drop 1).headD 0 = 0 then .allow else .deny
def bodyRule (body : List UInt8) : I2cRule := ⟨(body.drop 2)[0]?.getD 0,(body.drop 2)[1]?.getD 0⟩

/-- The edit that a DCP2 request asks for. -/
def dcp2Edit (opcode : ℕ) (body : List UInt8) : Option (Edit I2cRule) :=
  if opcode = opPolicySet then some (.setMode (bodySide body))
  else if opcode = opPolicyRuleAdd then some (.add (bodySide body) (bodyRule body))
  else if opcode = opPolicyRuleDelete then some (.remove (bodySide body) (bodyRule body))
  else if opcode = opPolicyClear then some (.clear (bodySide body))
  else none

/-- The service edit of a DCP2 request. -/
def Node.dcp2Step (deviceId : ℕ) (n : Node ε) (task : Task) (opcode : ℕ) (body : List UInt8) : Node ε × Option Bool :=
  if masterServiceFindByAddr n.runtime.world.state (body.headD 0) ≠ some deviceId then (n,none)
  else
    let ((status,_),w) := processPolicy n.runtime.world opcode body
    match dcp2Edit opcode body with
    | none => (n,some (decide (status = .ok)))
    | some edit =>
      if status = .ok then (n.takesEffect task w (.edited opcode body (.edit edit)) (.edit edit),none)
      else ({ n with runtime := { n.runtime with world := w } },some false)

/-- The copy of a console and its edit. -/
def Node.copyStep (deviceId : ℕ) (n : Node ε) (task : Task) (token : Word) (words : List Word) : Node ε × Option Bool :=
  match selectDevice n.runtime token with
  | none => (n,some false)
  | some (_,config) =>
    if configStoreFindByName n.runtime.store config.name ≠ some deviceId then (n,none)
    else
      match cmdPolicyWords config words with
      | .error _ => (n,some false)
      | .ok edit =>
        if (editRules config edit).1 = .ok then
          (n.setProgress task (.ready config (editRules config edit).2 (.edit edit)),none)
        else (n,some false)

/-- The first half of an `apply` request of the web interface. -/
def Node.openStep (deviceId : ℕ) (n : Node ε) (task : Task) (name revision : Text) : Node ε × Option Bool :=
  if masterServiceFindByName n.runtime.world.state name ≠ some deviceId then (n,none)
  else if currentRevision n.runtime deviceId = some revision then (n.setProgress task (.opened name revision),none)
  else (n,some false)

def Node.prepareStep (admits : Text → Bool) (deviceId : ℕ) (n : Node ε) (task : Task) (name revision body : Text) :
    Node ε × Option Bool :=
  match uiPrepare admits n.runtime deviceId name revision body with
  | none => (n.setProgress task .idle,some false)
  | some (current,next) => (n.setProgress task (.ready current next (.replace (configPolicy next))),none)

/-- The prepared configuration is applied to the service. -/
def Node.applyStep (n : Node ε) (task : Task) (next : I2cFileConfig) (change : PolicyChange) : Node ε × Option Bool :=
  match runtimeI2cApplyConfig n.runtime.world next with
  | (false,w) => ({ n.setProgress task .idle with runtime := { n.runtime with world := w } },some false)
  | (true,w) => (n.takesEffect task w (.applied next change) change,none)

/-- It is put into the store. -/
def Node.storeStep (n : Node ε) (task : Task) (next : I2cFileConfig) (change : PolicyChange) : Node ε × Option Bool :=
  match configStoreSet n.runtime.store next with
  | none => (n.finish task n.runtime change false,some false)
  | some store => (n.finish task { n.runtime with store := store } change true,some true)

/-- The policy of the service is copied to the store. -/
def Node.mirrorStep (n : Node ε) (task : Task) (opcode : ℕ) (body : List UInt8) (change : PolicyChange) :
    Node ε × Option Bool :=
  let (status,x) := dcp2MirrorPolicy n.runtime opcode body .ok
  (n.finish task x change (decide (status = .ok)),some (decide (status = .ok)))

/-- A step of a task, and the answer if it ends the operation. -/
def Node.step (admits : Text → Bool) (deviceId : ℕ) (n : Node ε) (s : Task × Action) : Node ε × Option Bool :=
  match s.1, n.progress s.1, s.2 with
  | .dcp2, .idle, .edit opcode body => n.dcp2Step deviceId .dcp2 opcode body
  | .console k, .idle, .copy token words => n.copyStep deviceId (.console k) token words
  | .http, .idle, .ask name revision => n.openStep deviceId .http name revision
  | .http, .opened name revision, .prepare body => n.prepareStep admits deviceId .http name revision body
  | task, .ready _ next change, .proceed => n.applyStep task next change
  | task, .applied next change, .proceed => n.storeStep task next change
  | task, .edited opcode body change, .proceed => n.mirrorStep task opcode body change
  | _, _, _ => (n,none)

end Bvstk.Surfaces
