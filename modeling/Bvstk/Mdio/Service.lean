import Bvstk.Config.MdioConfig
import Bvstk.Events.Event
import Bvstk.Library.CallLog
import Mathlib.Logic.Function.Basic

/-! # The MDIO service

`bvstk_mdio_service.c`: the configured PHYs behind their policies, a cache of their
registers, and a worker that takes the writes captured from the host and polls. The bus,
the captured mailboxes, the clock, the lock, the event sink and the cache observer are
outside; what is called there is recorded.
-/
namespace Bvstk.Mdio
open Config Events CallLog

/-! ## State -/

structure MdioCacheEntry where
  value : UInt16
  valid : Bool
  seeded : Bool
  updatedMs : UInt64
  deriving DecidableEq, Repr

def MdioCacheEntry.zero : MdioCacheEntry := ⟨0,false,false,0⟩

structure MdioStats where
  reads : UInt32
  writes : UInt32
  denied : UInt32
  errors : UInt32
  observed : UInt32
  unknownPhy : UInt32
  lastPhy : UInt8
  lastReg : UInt8
  lastSource : EventSource
  lastValue : UInt16
  lastStatus : Status
  deriving DecidableEq, Repr

def MdioStats.zero : MdioStats := ⟨0,0,0,0,0,0,0,0,.console,0,.ok⟩

/-- The configured PHYs: each passed the check, no two share an address. -/
structure MdioPhys where
  items : List MdioPhyConfig
  fits : items.length ≤ mdioMaxDevices
  valid : ∀ c ∈ items, c.Valid
  distinct : (items.map (·.phyAddr)).Nodup

def MdioPhys.count (ps : MdioPhys) : ℕ := ps.items.length

/-- `find_phy`: the first PHY with the address, or the count. -/
def MdioPhys.findPhy (ps : MdioPhys) (phy : UInt8) : ℕ := ps.items.findIdx (·.phyAddr == phy)

structure MdioState where
  devices : MdioPhys
  cache : ℕ → UInt8 → MdioCacheEntry
  stats : MdioStats
  pollDue : ℕ → UInt64
  probeDue : ℕ → UInt64
  pollIndex : ℕ → UInt8
  online : ℕ → Bool
  scanIndex : ℕ
  pollDevice : ℕ

/-- What the service calls outside. -/
inductive MdioCall where
  | read (phy reg : UInt8) (status : Status)
  | write (phy reg : UInt8) (value : UInt16) (source : EventSource) (status : Status)
  | takeWrite (phy reg : UInt8) (result : Except Status UInt16)
  | publish (phy reg : UInt8) (value : UInt16) (status : Status)
  | event (e : Event)
  | entry (device : ℕ) (resource : UInt8) (e : MdioCacheEntry)
  | presence (device : ℕ) (presence : ℕ)
  | configChanged (device : ℕ) (config : MdioPhyConfig)
  | ackSlave (status : Status)

/-- The lock, the clock and the bus, which may answer anything. -/
structure MdioPlatform (ε : Type) where
  lock : ε → Status × ε
  nowMs : ε → UInt64 × ε
  read : ε → (phy reg : UInt8) → (timeoutMs : ℕ) → (Status × UInt16) × ε
  write : ε → (phy reg : UInt8) → (value : UInt16) → EventSource → (timeoutMs : ℕ) → Status × ε
  takeWrite : ε → (phy reg : UInt8) → Except Status UInt16 × ε
  publish : ε → (phy reg : UInt8) → (value : UInt16) → Status × ε
  ackSlave : ε → Status × ε

abbrev MdioWorld (ε : Type) := World MdioState ε MdioCall

variable {ε : Type}

def MdioState.countStats (s : MdioState) (f : MdioStats → MdioStats) : MdioState := { s with stats := f s.stats }

def MdioState.setEntry (s : MdioState) (d : ℕ) (r : UInt8) (e : MdioCacheEntry) : MdioState :=
  { s with cache := Function.update s.cache d (Function.update (s.cache d) r e) }

/-- The next autopoll item of a PHY. -/
def MdioState.schedule (s : MdioState) (d : ℕ) (due : UInt64) (index : UInt8) : MdioState :=
  { s with pollDue := Function.update s.pollDue d due, pollIndex := Function.update s.pollIndex d index }

/-- Runs `f` under the lock, if the lock can be had. -/
def locked {α : Type} (P : MdioPlatform ε) (w : MdioWorld ε) (refuse : Status → α)
    (f : MdioWorld ε → α × MdioWorld ε) : α × MdioWorld ε :=
  let (status,env) := P.lock w.env
  if status ≠ .ok then (refuse status,{ w with env := env }) else f { w with env := env }

/-! ## Calls -/

def publish (P : MdioPlatform ε) (w : MdioWorld ε) (phy reg : UInt8) (value : UInt16) : Status × MdioWorld ε :=
  let (status,env) := P.publish w.env phy reg value
  (status,World.call { w with env := env } (.publish phy reg value status))

def emitFlags (P : MdioPlatform ε) (w : MdioWorld ε) (type : EventType) (status : Status) (source : EventSource)
    (phy reg : UInt8) (value : UInt16) (flags : ℕ) : MdioWorld ε :=
  let (now,env) := P.nowMs w.env
  World.call { w with env := env } (.event
    { timeUs := (now * 1000).toNat
      type := type.code
      status := status.code
      source := source.code
      bus := EventBus.mdio.code
      operation := if type = .masterRead then EventOp.read.code else EventOp.write.code
      flags := flags
      arg0 := phy.toNat
      arg1 := reg.toNat
      arg2 := value.toNat })

def emit (P : MdioPlatform ε) (w : MdioWorld ε) (type : EventType) (status : Status) (source : EventSource)
    (phy reg : UInt8) (value : UInt16) : MdioWorld ε :=
  emitFlags P w type status source phy reg value eventFlagNone

def cacheChanged (w : MdioWorld ε) (d : ℕ) (r : UInt8) : MdioWorld ε :=
  w.call (.entry d r (w.state.cache d r))

/-- A successful read other than all ones is evidence of a PHY; a write has no
acknowledgement. -/
def telemetryFlags (s : MdioState) (d : ℕ) (type : EventType) (status : Status) (value : UInt16) (probe : Bool) : ℕ :=
  if probe = true ∨ s.devices.count ≤ d then eventFlagTelemetryUnconfirmed
  else if s.online d = true then eventFlagNone
  else if type = .masterRead ∧ status = .ok ∧ value ≠ 0xFFFF then eventFlagNone
  else eventFlagTelemetryUnconfirmed

/-! ## Cache and bus -/

/-- Tells the observer about the registers from `r` on. -/
def cacheChangedFrom (d : ℕ) : (left r : ℕ) → MdioWorld ε → MdioWorld ε
  | 0, _, w => w
  | left + 1, r, w => cacheChangedFrom d left (r + 1) (cacheChanged w d (UInt8.ofNat r))

/-- Publishes all ones for the registers from `r` on, whatever fails. -/
def publishOnes (P : MdioPlatform ε) (phy : UInt8) : (left r : ℕ) → Status → MdioWorld ε → Status × MdioWorld ε
  | 0, _, result, w => (result,w)
  | left + 1, r, result, w =>
    let (status,w) := publish P w phy (UInt8.ofNat r) 0xFFFF
    publishOnes P phy left (r + 1) (if status ≠ .ok then .io else result) w

/-- The state of a PHY about which nothing is known. -/
def MdioState.forget (s : MdioState) (d : ℕ) : MdioState :=
  { s with
    cache := Function.update s.cache d fun _ => MdioCacheEntry.zero
    online := Function.update s.online d false
    probeDue := Function.update s.probeDue d 0 }

def invalidate (P : MdioPlatform ε) (w : MdioWorld ε) (d : ℕ) (c : MdioPhyConfig) : Status × MdioWorld ε :=
  let w := cacheChangedFrom d c.regCount.toNat 0 (w.modify (·.forget d))
  publishOnes P c.phyAddr 32 0 .ok (w.call (.presence d 2))

def busRead (P : MdioPlatform ε) (w : MdioWorld ε) (phy reg : UInt8) (timeoutMs : ℕ) :
    (Status × UInt16) × MdioWorld ε :=
  let (result,env) := P.read w.env phy reg timeoutMs
  (result,World.call { w with env := env } (.read phy reg result.1))

def busWrite (P : MdioPlatform ε) (w : MdioWorld ε) (phy reg : UInt8) (v : UInt16) (source : EventSource)
    (timeoutMs : ℕ) : Status × MdioWorld ε :=
  let (status,env) := P.write w.env phy reg v source timeoutMs
  (status,World.call { w with env := env } (.write phy reg v source status))

/-- The part of a read after the bus has answered: mirror and cache the value, or drop it. -/
def storeRead (P : MdioPlatform ε) (w : MdioWorld ε) (d : ℕ) (phy r : UInt8) (status : Status) (value : UInt16)
    (probe : Bool) : Status × MdioWorld ε :=
  let (status,w) := if status = .ok then publish P w phy r value else (status,w)
  if status = .ok then
    let (now,env) := P.nowMs w.env
    (.ok,World.modify { w with env := env } (·.setEntry d r ⟨value,true,false,now⟩))
  else
    let w := w.modify fun s => s.setEntry d r { s.cache d r with valid := false }
    let (_,w) := publish P w phy r 0xFFFF
    (status,if probe = true then w else w.modify (·.countStats fun t => { t with errors := t.errors + 1 }))

def readPhy (P : MdioPlatform ε) (w : MdioWorld ε) (d : ℕ) (c : MdioPhyConfig) (r : UInt8) (source : EventSource)
    (timeoutMs : ℕ) (probe : Bool) : (Status × UInt16) × MdioWorld ε :=
  let ((status,value),w) := busRead P w c.phyAddr r timeoutMs
  let shown := if status = .ok then value else 0
  let w := emitFlags P w .masterRead status source c.phyAddr r shown
    (telemetryFlags w.state d .masterRead status shown probe)
  let w := w.modify (·.countStats fun t => { t with reads := t.reads + 1 })
  let (status,w) := storeRead P w d c.phyAddr r status value probe
  -- an identity probe is published once the complete pair is accepted
  ((status,value),if probe = true then w else cacheChanged w d r)

/-- A cached command is not a reply of the PHY: forget the register, or on a reset
everything, before the write goes out. -/
def dropBeforeWrite (P : MdioPlatform ε) (w : MdioWorld ε) (d : ℕ) (c : MdioPhyConfig) (r : UInt8) (v : UInt16) :
    MdioWorld ε :=
  if r = 0 ∧ v &&& 0x8000 ≠ 0 then (invalidate P w d c).2
  else
    let w := cacheChanged (w.modify fun s => s.setEntry d r { s.cache d r with valid := false }) d r
    (publish P w c.phyAddr r 0xFFFF).2

/-- The part of a write that the policy has allowed. -/
def forwardWrite (P : MdioPlatform ε) (w : MdioWorld ε) (d : ℕ) (c : MdioPhyConfig) (r : UInt8) (v : UInt16)
    (source : EventSource) (timeoutMs : ℕ) (wasOnline : Bool) : Status × MdioWorld ε :=
  let w := dropBeforeWrite P w d c r v
  let (status,w) := busWrite P w c.phyAddr r v source timeoutMs
  let w := emitFlags P w .masterWrite status source c.phyAddr r v
    (if wasOnline = true then eventFlagNone else eventFlagTelemetryUnconfirmed)
  if status = .ok then
    let w := w.modify (·.countStats fun t => { t with writes := t.writes + 1 })
    -- success means that the frame completed, not that the PHY accepted it: read back, never retry
    let (_,w) := readPhy P w d c r source timeoutMs false
    let w := w.modify (·.schedule d 0 0)
    (.ok,emit P w .regCommit .ok source c.phyAddr r v)
  else
    let w := w.modify (·.countStats fun t => { t with errors := t.errors + 1 })
    (status,emit P w .fault status source c.phyAddr r v)

def writePhy (P : MdioPlatform ε) (w : MdioWorld ε) (d : ℕ) (c : MdioPhyConfig) (r : UInt8) (v : UInt16)
    (source : EventSource) (timeoutMs : ℕ) : Status × MdioWorld ε :=
  let wasOnline := w.state.online d
  let w := w.modify (·.countStats fun t =>
    { t with lastPhy := c.phyAddr, lastReg := r, lastValue := v, lastSource := source })
  let w := emit P w .regAttempt .ok source c.phyAddr r v
  let (status,w) :=
    if mdioPolicyAllows c r v = false then
      let w := w.modify (·.countStats fun t => { t with denied := t.denied + 1 })
      (Status.denied,emit P w .regDenied .denied source c.phyAddr r v)
    else forwardWrite P w d c r v source timeoutMs wasOnline
  (status,w.modify (·.countStats fun t => { t with lastStatus := status }))

/-- The configured register values, up to the first that cannot be published. -/
def seed (P : MdioPlatform ε) (d : ℕ) (phy : UInt8) : List MdioSetting → MdioWorld ε → Status × MdioWorld ε
  | [], w => (.ok,w)
  | v :: settings, w =>
    let (status,w) := publish P w phy v.reg v.val
    if status ≠ .ok then (.io,w)
    else
      let (now,env) := P.nowMs w.env
      let w := World.modify { w with env := env } (·.setEntry d v.reg ⟨v.val,true,true,now⟩)
      seed P d phy settings (cacheChanged w d v.reg)

/-! ## Reads and writes -/

def serviceReadFrom (P : MdioPlatform ε) (w : MdioWorld ε) (d : ℕ) (r : UInt8) (source : EventSource)
    (timeoutMs : ℕ) : (Status × UInt16) × MdioWorld ε :=
  locked P w (·,0) fun w =>
    match w.state.devices.items[d]? with
    | none => ((.notFound,0),w)
    | some c => if c.regCount ≤ r then ((.range,0),w) else readPhy P w d c r source timeoutMs false

def serviceInvalidate (P : MdioPlatform ε) (w : MdioWorld ε) (d : ℕ) : Status × MdioWorld ε :=
  locked P w id fun w =>
    match w.state.devices.items[d]? with
    | none => (.notFound,w)
    | some c => invalidate P w d c

def serviceWrite (P : MdioPlatform ε) (w : MdioWorld ε) (d : ℕ) (r : UInt8) (v : UInt16) (source : EventSource)
    (timeoutMs : ℕ) : Status × MdioWorld ε :=
  locked P w id fun w =>
    match w.state.devices.items[d]? with
    | none => (.notFound,w)
    | some c => if c.regCount ≤ r then (.range,w) else writePhy P w d c r v source timeoutMs

/-! ## Rules -/

def MdioPhys.addrs (ps : MdioPhys) : List UInt8 := ps.items.map (·.phyAddr)

/-- No other PHY has the address. -/
def MdioPhys.Free (ps : MdioPhys) (d : ℕ) (phy : UInt8) : Prop :=
  ∀ i, i < ps.addrs.length → i ≠ d → ps.addrs[i]? ≠ some phy

instance (ps : MdioPhys) (d : ℕ) (phy : UInt8) : Decidable (ps.Free d phy) :=
  inferInstanceAs (Decidable (∀ i, i < ps.addrs.length → i ≠ d → ps.addrs[i]? ≠ some phy))

theorem MdioPhys.free_self (ps : MdioPhys) {d : ℕ} {c : MdioPhyConfig} (h : ps.items[d]? = some c) :
    ps.Free d c.phyAddr := by
  intro i hlt hi heq
  have hd : ps.addrs[d]? = some c.phyAddr := by rw [MdioPhys.addrs, List.getElem?_map, h, Option.map_some]
  exact hi ((List.getElem?_inj hlt ps.distinct).mp (heq.trans hd.symm))

theorem nodup_set {xs : List UInt8} (h : xs.Nodup) {d : ℕ} {x : UInt8}
    (hfree : ∀ i, i < xs.length → i ≠ d → xs[i]? ≠ some x) : (xs.set d x).Nodup := by
  rw [List.nodup_iff_getElem?_ne_getElem?] at h ⊢
  intro i j hij hj
  rw [List.length_set] at hj
  rw [List.getElem?_set, List.getElem?_set]
  split
  · rename_i hdi
    rw [if_pos (by omega), if_neg (by omega)]
    exact (hfree j hj (by omega)).symm
  · split
    · rw [if_pos (by omega)]
      exact hfree i (by omega) (by omega)
    · exact h i j hij hj

def MdioPhys.set (ps : MdioPhys) (d : ℕ) (c : MdioPhyConfig) (hvalid : c.Valid) (hfree : ps.Free d c.phyAddr) :
    MdioPhys where
  items := ps.items.set d c
  fits := by simpa using ps.fits
  valid := by
    intro c' hc'
    rcases List.mem_or_eq_of_mem_set hc' with hc' | rfl
    · exact ps.valid c' hc'
    · exact hvalid
  distinct := by
    rw [List.map_set]
    exact nodup_set ps.distinct hfree

/-- An edit of a configuration that keeps it valid and in its place. -/
structure MdioEdit where
  apply : MdioPhyConfig → Status × MdioPhyConfig
  valid : ∀ c, c.Valid → (apply c).2.Valid
  phyAddr : ∀ c, (apply c).2.phyAddr = c.phyAddr

def editPhy (w : MdioWorld ε) (d : ℕ) (edit : MdioEdit) : Status × MdioWorld ε :=
  match h : w.state.devices.items[d]? with
  | none => (.notFound,w)
  | some c =>
    ((edit.apply c).1,{ w with
      state := { w.state with
        devices := w.state.devices.set d (edit.apply c).2
          (edit.valid c (w.state.devices.valid c (List.mem_of_getElem? h)))
          (edit.phyAddr c ▸ w.state.devices.free_self h) } })

def setPolicyEdit (mode : PolicyMode) : MdioEdit where
  apply c := (.ok,c.setPolicy mode)
  valid _ h := h.setPolicy mode
  phyAddr _ := rfl

def serviceSetPolicy (P : MdioPlatform ε) (w : MdioWorld ε) (d mode : ℕ) : Status × MdioWorld ε :=
  locked P w id fun w =>
    match PolicyMode.ofCode mode with
    | none => (.malformed,w)
    | some mode => editPhy w d (setPolicyEdit mode)

/-- An added rule is stored masked; one that is there already stays as it is. -/
def addRule (c : MdioPhyConfig) (list : PolicyMode) (reg : UInt8) (value mask : UInt16) : Status × MdioPhyConfig :=
  if c.regCount ≤ reg then (.range,c)
  else if (c.rules list).any (·.same reg value mask) then (.ok,c)
  else if mdioRulesMax ≤ (c.rules list).length then (.range,c)
  else (.ok,c.setRules list (c.rules list ++ [⟨reg,value &&& mask,mask⟩]))

def addRuleEdit (list : PolicyMode) (reg : UInt8) (value mask : UInt16) : MdioEdit where
  apply c := addRule c list reg value mask
  valid c h := by
    unfold addRule
    split
    · exact h
    · rename_i hreg
      split
      · exact h
      · split
        · exact h
        · rename_i hroom
          refine h.setRules list (by rw [List.length_append, List.length_singleton]; omega) ?_
          intro r hr
          rcases List.mem_append.mp hr with hr | hr
          · exact h.rules_reg list r hr
          · rw [List.mem_singleton.mp hr]
            exact UInt8.not_le.mp hreg
  phyAddr c := by
    unfold addRule
    split
    · rfl
    · split
      · rfl
      · split
        · rfl
        · exact setRules_phyAddr ..

/-- Removes every rule that is the same. -/
def removeRule (c : MdioPhyConfig) (list : PolicyMode) (reg : UInt8) (value mask : UInt16) : Status × MdioPhyConfig :=
  if c.regCount ≤ reg then (.range,c)
  else if (c.rules list).any (·.same reg value mask) = false then (.notFound,c)
  else (.ok,c.setRules list ((c.rules list).filter fun r => !r.same reg value mask))

def removeRuleEdit (list : PolicyMode) (reg : UInt8) (value mask : UInt16) : MdioEdit where
  apply c := removeRule c list reg value mask
  valid c h := by
    unfold removeRule
    split
    · exact h
    · split
      · exact h
      · exact h.setRules list (Nat.le_trans (List.length_filter_le ..) (h.rules_length list))
          fun r hr => h.rules_reg list r (List.mem_of_mem_filter hr)
  phyAddr c := by
    unfold removeRule
    split
    · rfl
    · split
      · rfl
      · exact setRules_phyAddr ..

def clearListEdit (list : PolicyMode) : MdioEdit where
  apply c := (.ok,c.setRules list [])
  valid _ h := h.setRules list (Nat.zero_le _) fun _ hr => absurd hr List.not_mem_nil
  phyAddr _ := setRules_phyAddr ..

/-- `policy_list`: an edit of the list that a selector names. -/
def editList (w : MdioWorld ε) (d list : ℕ) (edit : PolicyMode → MdioEdit) : Status × MdioWorld ε :=
  if w.state.devices.items.length ≤ d then (.notFound,w)
  else
    match PolicyMode.ofCode list with
    | none => (.malformed,w)
    | some list => editPhy w d (edit list)

def serviceRuleAdd (P : MdioPlatform ε) (w : MdioWorld ε) (d list : ℕ) (reg : UInt8) (value mask : UInt16) :
    Status × MdioWorld ε :=
  locked P w id fun w => editList w d list fun list => addRuleEdit list reg value mask

def serviceRuleRemove (P : MdioPlatform ε) (w : MdioWorld ε) (d list : ℕ) (reg : UInt8) (value mask : UInt16) :
    Status × MdioWorld ε :=
  locked P w id fun w => editList w d list fun list => removeRuleEdit list reg value mask

def serviceRuleClearList (P : MdioPlatform ε) (w : MdioWorld ε) (d list : ℕ) : Status × MdioWorld ε :=
  locked P w id fun w => editList w d list clearListEdit

/-- `bvstk_mdio_policy_entry_t`. -/
structure MdioPolicyEntry where
  mode : ℕ
  whitelist : List MdioRule
  blacklist : List MdioRule
  deriving DecidableEq, Repr

def policyEntry (c : MdioPhyConfig) : MdioPolicyEntry := ⟨c.policy,c.whitelist,c.blacklist⟩

def serviceGetPolicy (P : MdioPlatform ε) (w : MdioWorld ε) (d : ℕ) : Except Status MdioPolicyEntry × MdioWorld ε :=
  locked P w .error fun w =>
    match w.state.devices.items[d]? with
    | none => (.error .notFound,w)
    | some c => (.ok (policyEntry c),w)

def serviceFindByPhy (P : MdioPlatform ε) (w : MdioWorld ε) (phy : UInt8) : Except Status ℕ × MdioWorld ε :=
  locked P w .error fun w =>
    if 31 < phy then (.error .range,w)
    else
      let d := w.state.devices.findPhy phy
      (if d < w.state.devices.count then .ok d else .error .notFound,w)

/-! ## Configuration -/

/-- The parts of a configuration that the cache depends on. -/
def busChanged (old c : MdioPhyConfig) : Bool :=
  c.phyAddr != old.phyAddr || c.regCount != old.regCount || c.settings != old.settings ||
    c.settingsSpare != old.settingsSpare

/-- The new configuration is in place: report it, restart the polling, and fill the
cache from its settings if it may hold something else. -/
def startConfig (P : MdioPlatform ε) (w : MdioWorld ε) (d : ℕ) (c : MdioPhyConfig) (changed : Bool) :
    Status × MdioWorld ε :=
  let w := (w.call (.configChanged d c)).modify (·.schedule d 0 0)
  if changed = true then
    let (status,w) := invalidate P w d c
    if status ≠ .ok then (status,w) else seed P d c.phyAddr c.settings w
  else (.ok,w)

/-- `devices` is the table with `c` in place of `old`. -/
def applyConfig (P : MdioPlatform ε) (w : MdioWorld ε) (d : ℕ) (old c : MdioPhyConfig) (devices : MdioPhys) :
    Status × MdioWorld ε :=
  let changed := busChanged old c
  let (status,w) := if changed = true then invalidate P w d old else (.ok,w)
  if status ≠ .ok then (status,w) else startConfig P (w.modify fun s => { s with devices := devices }) d c changed

def serviceSetConfig (P : MdioPlatform ε) (w : MdioWorld ε) (d : ℕ) (c : MdioPhyConfig) : Status × MdioWorld ε :=
  if hvalid : mdioConfigValidate c = .ok then
    locked P w id fun w =>
      -- an address that is taken is refused before anything else
      if hfree : w.state.devices.Free d c.phyAddr then
        match w.state.devices.items[d]? with
        | none => (.notFound,w)
        | some old =>
          if c.name ≠ old.name ∨ c.fileName ≠ old.fileName then (.denied,w)
          else applyConfig P w d old c (w.state.devices.set d c (mdioConfigValidate_eq_ok.mp hvalid) hfree)
      else (.denied,w)
  else (mdioConfigValidate c,w)

/-! ## The worker -/

def takeWrite (P : MdioPlatform ε) (w : MdioWorld ε) (phy reg : UInt8) : Except Status UInt16 × MdioWorld ε :=
  let (result,env) := P.takeWrite w.env phy reg
  (result,World.call { w with env := env } (.takeWrite phy reg result))

/-- What is done with one captured write. -/
def handleCapture (P : MdioPlatform ε) (w : MdioWorld ε) (phy reg : UInt8) (v : UInt16) (timeoutMs : ℕ) :
    Status × MdioWorld ε :=
  let w := w.modify (·.countStats fun t => { t with observed := t.observed + 1 })
  let d := w.state.devices.findPhy phy
  let w := emitFlags P w .captureWrite .ok .host phy reg v
    (if d < w.state.devices.count ∧ w.state.online d = true then eventFlagNone else eventFlagTelemetryUnconfirmed)
  match w.state.devices.items[d]? with
  | none =>
    let w := w.modify (·.countStats fun t => { t with unknownPhy := t.unknownPhy + 1, denied := t.denied + 1 })
    let w := emit P w .regAttempt .ok .host phy reg v
    (.ok,emit P w .regDenied .notFound .host phy reg v)
  | some c => writePhy P w d c reg v .host timeoutMs

/-- One mailbox for each PHY address and register. -/
def mailboxCount : ℕ := 1024

/-- The scan over the mailboxes: at most `left` of them, up to four captured writes. -/
def scanMailboxes (P : MdioPlatform ε) (timeoutMs : ℕ) :
    (left taken : ℕ) → Status → MdioWorld ε → Status × MdioWorld ε
  | 0, _, result, w => (result,w)
  | left + 1, taken, result, w =>
    if 4 ≤ taken then (result,w)
    else
      let phy := UInt8.ofNat (w.state.scanIndex / 32)
      let reg := UInt8.ofNat (w.state.scanIndex % 32)
      let w := w.modify fun s => { s with scanIndex := (s.scanIndex + 1) % mailboxCount }
      match takeWrite P w phy reg with
      | (.error .notFound,w) => scanMailboxes P timeoutMs left taken result w
      | (.error status,w) => (status,w.modify (·.countStats fun t => { t with errors := t.errors + 1 }))
      | (.ok v,w) =>
        let (status,w) := handleCapture P w phy reg v timeoutMs
        scanMailboxes P timeoutMs left (taken + 1)
          (if status ≠ .ok ∧ status ≠ .denied then status else result) w

/-- The identity pair of a PHY that is there: neither all ones nor all zeros. -/
def identityValid (id1 id2 : UInt16) : Bool := id1 != 0xFFFF && id2 != 0xFFFF && (id1 != 0 || id2 != 0)

/-- The identity probe of one PHY. -/
def probe (P : MdioPlatform ε) (w : MdioWorld ε) (d : ℕ) (c : MdioPhyConfig) (now : UInt64) (timeoutMs : ℕ)
    (result : Status) : Status × MdioWorld ε :=
  let ((status,id1),w) := readPhy P w d c 2 .internal timeoutMs true
  let ((status,id2),w) := if status = .ok then readPhy P w d c 3 .internal timeoutMs true else ((status,0),w)
  let (result,w) :=
    if status = .ok ∧ identityValid id1 id2 = true then
      let w := cacheChanged (cacheChanged w d 2) d 3
      let w := w.modify fun s =>
        { s with
          pollDue := if s.online d = true then s.pollDue else Function.update s.pollDue d 0
          online := Function.update s.online d true }
      (result,w.call (.presence d 1))
    else (if status = .ok then .notReady else status,(invalidate P w d c).2)
  (result,w.modify fun s => { s with probeDue := Function.update s.probeDue d (now + 1000) })

/-- The due autopoll item of one PHY. -/
def autopoll (P : MdioPlatform ε) (w : MdioWorld ε) (d : ℕ) (c : MdioPhyConfig) (now : UInt64) (timeoutMs : ℕ)
    (result : Status) : Status × MdioWorld ε :=
  let r := c.autopollRegs.getD (w.state.pollIndex d).toNat 0
  let ((status,_),w) := readPhy P w d c r .internal timeoutMs false
  let (result,w) :=
    if status ≠ .ok then
      (status,(invalidate P w d c).2.modify fun s =>
        { s with probeDue := Function.update s.probeDue d (now + 1000) })
    else (result,w)
  let index := w.state.pollIndex d + 1
  if c.autopollRegs.length ≤ index.toNat then
    (result,w.modify (·.schedule d
      (now + (if c.autopollCycleDelayMs ≠ 0 then c.autopollCycleDelayMs.toUInt64 else 1)) 0))
  else (result,w.modify (·.schedule d (now + c.autopollRegDelayMs.toUInt64) index))

/-- One polling item: the first PHY in turn that is due. Probes run even with autopoll
disabled, to detect a PHY that was disconnected. -/
def pollNext (P : MdioPlatform ε) (now : UInt64) (timeoutMs : ℕ) :
    (left : ℕ) → Status → MdioWorld ε → Status × MdioWorld ε
  | 0, result, w => (result,w)
  | left + 1, result, w =>
    let d := w.state.pollDevice % w.state.devices.count
    let w := w.modify fun s => { s with pollDevice := s.pollDevice + 1 }
    match w.state.devices.items[d]? with
    | none => (result,w)
    | some c =>
      if w.state.probeDue d ≤ now ∧ 4 ≤ c.regCount then probe P w d c now timeoutMs result
      else if c.autopollEnabled = false ∨ c.autopollRegs = [] ∨ now < w.state.pollDue d then
        pollNext P now timeoutMs left result w
      else if 4 ≤ c.regCount ∧ w.state.online d = false then pollNext P now timeoutMs left result w
      else autopoll P w d c now timeoutMs result

/-- The acknowledgement of the captured writes. -/
def acknowledge (P : MdioPlatform ε) (w : MdioWorld ε) (result : Status) : Status × MdioWorld ε :=
  let (status,env) := P.ackSlave w.env
  let w := World.call { w with env := env } (.ackSlave status)
  if status ≠ .ok then (.io,w.modify (·.countStats fun t => { t with errors := t.errors + 1 })) else (result,w)

/-- The worker under the lock: up to `limit` mailboxes, then one polling item. -/
def work (P : MdioPlatform ε) (now : UInt64) (timeoutMs limit : ℕ) (w : MdioWorld ε) : Status × MdioWorld ε :=
  let (result,w) := scanMailboxes P timeoutMs limit 0 .ok w
  let (result,w) := acknowledge P w result
  pollNext P now timeoutMs w.state.devices.count result w

def serviceStep (P : MdioPlatform ε) (w : MdioWorld ε) (now : UInt64) (timeoutMs : ℕ) : Status × MdioWorld ε :=
  locked P w id (work P now timeoutMs mailboxCount)

end Bvstk.Mdio
