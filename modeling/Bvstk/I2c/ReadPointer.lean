import Bvstk.I2c.SlaveService
import Bvstk.Library.Rotation
import Mathlib.Data.List.Induction

/-! # The read pointer of the I2C slave service

A host reads a device in windows that end for four reasons. Whatever the sizes of the windows, the bytes
are the device's registers in their order, from the pointer on and round the register file. What is
armed is armed by a pointer write alone.
-/
namespace Bvstk.I2c
open Config Events CallLog
open Rotation (positions positions_add positions_eq positions_length)
variable {ε : Type}

/-! ## Calls -/

/-- A read phase, with all the state that is not the slave service's own. Between two calls that state may
have become any other: the device table, the policies, the cache and the bus. -/
structure ReadCall (ε : Type) where
  world : I2cWorld ε
  capacity : ℕ
  timeoutMs : ℕ

/-- What a call gave. -/
structure Answer (ε : Type) where
  before : SlaveService
  call : ReadCall ε
  status : Status
  window : List UInt8
  after : I2cHost ε

def answer (P : I2cPlatform ε) (slave : SlaveService) (call : ReadCall ε) : Answer ε :=
  let out := slaveServiceHandleFrame P ⟨slave,call.world⟩ [] true call.capacity call.timeoutMs
  ⟨slave,call,out.1.1,out.1.2,out.2⟩

/-- The calls of a run, each with the pointer the one before it left. -/
def answers (P : I2cPlatform ε) : SlaveService → List (ReadCall ε) → List (Answer ε)
  | _, [] => []
  | slave, call :: calls => answer P slave call :: answers P (answer P slave call).after.slave calls

/-! ## Registers -/

/-- The register file of the target at the call; a device that is not in the table has none. -/
def registerCount (slave : SlaveService) (call : ReadCall ε) : ℕ :=
  match call.world.state.devices.items[slave.targetDevice]? with
  | none => 0
  | some device => device.regCount

/-- Where a read begins: a pointer behind the end of the file is back at the first register. -/
def startAt (count pointer : ℕ) : ℕ := if count ≤ pointer then 0 else pointer

def SlaveService.pointer (slave : SlaveService) : ℕ := (slave.registerPointer slave.targetDevice).toNat

def Answer.count (a : Answer ε) : ℕ := registerCount a.before a.call

def Answer.start (a : Answer ε) : ℕ := startAt a.count a.before.pointer

/-- The registers a window stands for. -/
def Answer.registers (a : Answer ε) : List ℕ := positions a.count a.start a.window.length

/-- The entry of a register of the target. -/
def Answer.entry (a : Answer ε) (reg : ℕ) : RegisterEntry :=
  a.after.world.state.cache.entries a.before.targetDevice (UInt8.ofNat reg)

/-- The value of a register: it was cached before the call, or the bus gave it during the call. -/
def Answer.Source (P : I2cPlatform ε) (a : Answer ε) (reg : ℕ) : Prop :=
  a.entry reg = a.call.world.state.cache.entries a.before.targetDevice (UInt8.ofNat reg) ∨
    ∃ device env, a.call.world.state.devices.items[a.before.targetDevice]? = some device ∧
      (P.readReg env device.addr7b (UInt8.ofNat reg) a.call.timeoutMs).1 = (.ok,(a.entry reg).value)

/-- The window holds the values of its registers, and the pointer stands behind them. -/
structure Answer.Exact (P : I2cPlatform ε) (a : Answer ε) : Prop where
  status : a.status = .ok
  size : 0 < a.window.length ∧ a.window.length ≤ a.call.capacity
  inside : a.start + a.window.length ≤ a.count
  values : a.window = a.registers.map fun reg => (a.entry reg).value
  valid : ∀ reg ∈ a.registers, (a.entry reg).valid = true
  source : ∀ reg ∈ a.registers, a.Source P reg
  pointer : a.after.slave = a.before.point a.before.targetDevice (UInt8.ofNat ((a.start + a.window.length) % a.count))

/-- A call that fails gives nothing and leaves the service as it was. -/
structure Answer.Failed (a : Answer ε) : Prop where
  status : a.status ≠ .ok
  window : a.window = []
  kept : a.after.slave = a.before

/-! ## One call -/

section Call
variable (P : I2cPlatform ε)

theorem observe_state (w : I2cWorld ε) (deviceId : ℕ) (type : EventType) (op : EventOp) (reg : ℕ) (value : UInt8)
    (status : Status) : (masterServiceObserve P w deviceId type op reg value status).state = w.state := by
  unfold masterServiceObserve
  split <;> exact Eq.refl _

theorem observeReplies_state (target reg : ℕ) (window : List UInt8) (w : I2cWorld ε) :
    (observeReplies P target reg window w).state = w.state := by
  induction window generalizing reg w with
  | nil => exact Eq.refl _
  | cons value window ih => exact (ih _ _).trans (observe_state P w target _ _ _ _ _)

/-- The cached registers from `reg` on: what the window holds and why it ends. -/
theorem cachedWindow_spec (c : RegisterCache) (deviceId n : ℕ) (capacity reg : ℕ) :
    ∃ k, k ≤ capacity ∧ reg + k ≤ max reg n ∧
      cachedWindow c deviceId n capacity reg =
        (List.range' reg k).map (fun r => (c.entries deviceId (UInt8.ofNat r)).value) ∧
      (∀ r ∈ List.range' reg k, (c.entries deviceId (UInt8.ofNat r)).valid = true) ∧
      (0 < capacity → reg < n → cacheIsValid c deviceId (UInt8.ofNat reg) = true → 0 < k) := by
  induction capacity generalizing reg with
  | zero => exact ⟨0,Nat.le_refl _,Nat.le_max_left _ _,Eq.refl _,List.forall_mem_nil _,fun h => absurd h (Nat.lt_irrefl 0)⟩
  | succ capacity ih =>
    rw [cachedWindow]
    by_cases hreg : reg < n ∧ cacheIsValid c deviceId (UInt8.ofNat reg) = true
    · obtain ⟨k,hk,hend,hwindow,hvalid,-⟩ := ih (reg + 1)
      have hentry : (c.entries deviceId (UInt8.ofNat reg)).valid = true := (Bool.and_eq_true_iff.1 hreg.2).2
      refine ⟨k + 1,Nat.succ_le_succ hk,by omega,?_,?_,fun _ _ _ => Nat.succ_pos k⟩
      · rw [if_pos hreg,hwindow]
        exact Eq.refl _
      · exact List.forall_mem_cons.2 ⟨hentry,hvalid⟩
    · rw [if_neg hreg]
      exact ⟨0,Nat.zero_le _,Nat.le_max_left _ _,Eq.refl _,List.forall_mem_nil _,fun _ hlt hvalid => absurd ⟨hlt,hvalid⟩ hreg⟩

theorem recordResponse_tables (w : I2cWorld ε) (deviceId : ℕ) (address : UInt8) (status : Status) (read : Bool) :
    (recordResponse w deviceId address status read).state.devices = w.state.devices ∧
      (recordResponse w deviceId address status read).state.cache = w.state.cache := by
  unfold recordResponse
  split
  · exact ⟨Eq.refl _,Eq.refl _⟩
  · split <;> exact ⟨Eq.refl _,Eq.refl _⟩

/-- A value for a register of the table is stored. -/
theorem cacheResponse_ok {w : I2cWorld ε} {deviceId : ℕ} {device : I2cDevice}
    (hknown : w.state.devices.items[deviceId]? = some device) {reg : UInt8} (hreg : reg.toNat < device.regCount)
    (value : UInt8) :
    ((cacheResponse P w deviceId device reg value .ok).state.cache.entries deviceId reg).valid = true ∧
      ((cacheResponse P w deviceId device reg value .ok).state.cache.entries deviceId reg).value = value := by
  have hget : devicesGet w.state.devices deviceId = .ok device := by rw [devicesGet,hknown]
  have hcount : ¬w.state.cache.deviceCount ≤ deviceId := by
    rw [w.state.cacheSize]
    exact Nat.not_le.2 (List.getElem?_eq_some_iff.1 hknown).1
  rw [cacheResponse,hget]
  dsimp only
  rw [if_pos ⟨Eq.refl _,Eq.refl _,hreg⟩,if_pos (Eq.refl _),cacheWrite,if_neg hcount]
  simp [cacheSet,World.call,I2cState.setEntry,RegisterCache.set]

/-- A read that succeeds leaves its value in the cache. -/
theorem readFrom_ok {w : I2cWorld ε} {deviceId : ℕ} {device : I2cDevice} {reg : UInt8} {source : EventSource}
    {timeoutMs : ℕ} (hknown : w.state.devices.items[deviceId]? = some device)
    (hok : (masterServiceReadFrom P w deviceId reg source timeoutMs).1.1 = .ok) :
    (∃ env, (P.readReg env device.addr7b reg timeoutMs).1 =
      (.ok,(masterServiceReadFrom P w deviceId reg source timeoutMs).1.2)) ∧
    ((masterServiceReadFrom P w deviceId reg source timeoutMs).2.state.cache.entries deviceId reg).valid = true ∧
    ((masterServiceReadFrom P w deviceId reg source timeoutMs).2.state.cache.entries deviceId reg).value =
      (masterServiceReadFrom P w deviceId reg source timeoutMs).1.2 := by
  have hget : devicesGet w.state.devices deviceId = .ok device := by rw [devicesGet,hknown]
  unfold masterServiceReadFrom at hok ⊢
  rw [hget] at hok ⊢
  dsimp only at hok ⊢
  by_cases hreg : device.regCount ≤ reg.toNat
  · rw [if_pos hreg] at hok
    cases hok
  rw [if_neg hreg] at hok ⊢
  have hbus : (backendRead P w device reg timeoutMs).1 = (P.readReg w.env device.addr7b reg timeoutMs).1 := Eq.refl _
  have hstate : (backendRead P w device reg timeoutMs).2.state = w.state := Eq.refl _
  generalize backendRead P w device reg timeoutMs = out at hok hbus hstate ⊢
  obtain ⟨⟨status,value⟩,w₁⟩ := out
  dsimp only at hok hbus hstate ⊢
  subst hok
  rw [if_pos (Eq.refl _)]
  obtain ⟨hdevices,-⟩ := recordResponse_tables w₁ deviceId device.addr7b .ok true
  refine ⟨⟨w.env,hbus.symm⟩,cacheResponse_ok P ?_ (Nat.not_le.1 hreg) value⟩
  change (recordResponse w₁ deviceId device.addr7b .ok true).state.devices.items[deviceId]? = some device
  rw [hdevices,hstate,hknown]

/-- What a window that is loaded holds. -/
structure Loaded (w w' : I2cWorld ε) (deviceId : ℕ) (device : I2cDevice) (reg capacity timeoutMs : ℕ) (window : List UInt8) :
    Prop where
  size : 0 < window.length ∧ window.length ≤ capacity
  inside : reg + window.length ≤ device.regCount
  values : window = (List.range' reg window.length).map fun r => (w'.state.cache.entries deviceId (UInt8.ofNat r)).value
  valid : ∀ r ∈ List.range' reg window.length, (w'.state.cache.entries deviceId (UInt8.ofNat r)).valid = true
  source : ∀ r ∈ List.range' reg window.length,
    w'.state.cache.entries deviceId (UInt8.ofNat r) = w.state.cache.entries deviceId (UInt8.ofNat r) ∨
      ∃ env, (P.readReg env device.addr7b (UInt8.ofNat r) timeoutMs).1 =
        (.ok,(w'.state.cache.entries deviceId (UInt8.ofNat r)).value)

theorem loadWindow_spec {w : I2cWorld ε} {deviceId : ℕ} {device : I2cDevice}
    (hknown : w.state.devices.items[deviceId]? = some device) {reg capacity : ℕ} (hreg : reg < device.regCount)
    (hcapacity : 0 < capacity) (timeoutMs : ℕ) (hok : (loadWindow P w deviceId (UInt8.ofNat reg) capacity timeoutMs).1.1 = .ok) :
    Loaded P w (loadWindow P w deviceId (UInt8.ofNat reg) capacity timeoutMs).2 deviceId device reg capacity timeoutMs
      (loadWindow P w deviceId (UInt8.ofNat reg) capacity timeoutMs).1.2 := by
  have hget : devicesGet w.state.devices deviceId = .ok device := by rw [devicesGet,hknown]
  have hsmall : device.regCount ≤ 256 := (w.state.devices.valid device (List.mem_of_getElem? hknown)).2.2.2
  have hbyte : (UInt8.ofNat reg).toNat = reg := UInt8.toNat_ofNat_of_lt' (show reg < 256 by omega)
  unfold loadWindow at hok ⊢
  rw [hget] at hok ⊢
  dsimp only at hok ⊢
  rw [if_neg (by rw [hbyte]; omega)] at hok ⊢
  by_cases hcached : capacity = 0 ∨ cacheIsValid w.state.cache deviceId (UInt8.ofNat reg) = true
  · have hvalid := hcached.resolve_left (Nat.pos_iff_ne_zero.1 hcapacity)
    rw [if_pos hcached,hbyte]
    obtain ⟨k,hk,hend,hwindow,hentries,hpos⟩ := cachedWindow_spec w.state.cache deviceId device.regCount capacity reg
    have hlength : (cachedWindow w.state.cache deviceId device.regCount capacity reg).length = k := by
      rw [hwindow,List.length_map,List.length_range']
    refine ⟨?_,?_,?_,?_,?_⟩
    · rw [hlength]
      exact ⟨hpos hcapacity hreg hvalid,hk⟩
    · rw [hlength]
      omega
    · rw [hlength]
      exact hwindow
    · rw [hlength]
      exact hentries
    · exact fun r _ => Or.inl (Eq.refl _)
  · rw [if_neg hcached] at hok ⊢
    have hread := @readFrom_ok ε P w deviceId device (UInt8.ofNat reg) .host timeoutMs hknown
    generalize masterServiceReadFrom P w deviceId (UInt8.ofNat reg) .host timeoutMs = out at hok hread ⊢
    obtain ⟨⟨status,value⟩,w'⟩ := out
    dsimp only at hok hread ⊢
    by_cases hstatus : status ≠ .ok
    · rw [if_pos hstatus] at hok
      exact absurd hok hstatus
    rw [if_neg hstatus]
    obtain ⟨⟨env,hbus⟩,hvalid,hvalue⟩ := hread (Decidable.not_not.1 hstatus)
    refine ⟨⟨Nat.one_pos,hcapacity⟩,hreg,?_,?_,?_⟩
    · exact congrArg (fun v => [v]) hvalue.symm
    · exact List.forall_mem_singleton.2 hvalid
    · exact List.forall_mem_singleton.2 (Or.inr ⟨env,hvalue ▸ hbus⟩)

theorem startAt_lt {count : ℕ} (hcount : 0 < count) (pointer : ℕ) : startAt count pointer < count := by
  rw [startAt]
  split
  · exact hcount
  · omega

/-- An armed read with room for a byte gives the registers from the pointer on, or fails. -/
theorem answer_spec {slave : SlaveService} (harmed : slave.readArmed slave.targetDevice = true) {call : ReadCall ε}
    (hcapacity : 0 < call.capacity) : (answer P slave call).Exact P ∨ (answer P slave call).Failed := by
  cases hknown : call.world.state.devices.items[slave.targetDevice]? with
  | none =>
    have hget : devicesGet call.world.state.devices slave.targetDevice = .error .notFound := by rw [devicesGet,hknown]
    have hout : slaveServiceHandleFrame P ⟨slave,call.world⟩ [] true call.capacity call.timeoutMs =
        ((.notFound,[]),⟨slave,call.world⟩) := by
      rw [slaveServiceHandleFrame,hget]
    refine Or.inr ⟨?_,?_,?_⟩
    · simp [answer,hout]
    · simp [answer,hout]
    · simp [answer,hout]
  | some device =>
    have hget : devicesGet call.world.state.devices slave.targetDevice = .ok device := by rw [devicesGet,hknown]
    obtain ⟨-,-,hpositive,hsmall⟩ := call.world.state.devices.valid device (List.mem_of_getElem? hknown)
    have hcount : registerCount slave call = device.regCount := by rw [registerCount,hknown]
    have hstart : startAt device.regCount slave.pointer < device.regCount := startAt_lt (Nat.pos_of_ne_zero hpositive) _
    have hout : slaveServiceHandleFrame P ⟨slave,call.world⟩ [] true call.capacity call.timeoutMs =
        handleReadPhase P ⟨slave,call.world⟩ device call.capacity call.timeoutMs := by
      rw [slaveServiceHandleFrame,hget]
      exact if_pos (Eq.refl _)
    have hanswer : answer P slave call =
        ⟨slave,call,(handleReadPhase P ⟨slave,call.world⟩ device call.capacity call.timeoutMs).1.1,
          (handleReadPhase P ⟨slave,call.world⟩ device call.capacity call.timeoutMs).1.2,
          (handleReadPhase P ⟨slave,call.world⟩ device call.capacity call.timeoutMs).2⟩ := by
      rw [answer,hout]
    have hreg : (if device.regCount ≤ (slave.registerPointer slave.targetDevice).toNat then 0
        else (slave.registerPointer slave.targetDevice).toNat) = startAt device.regCount slave.pointer := Eq.refl _
    rw [hanswer,handleReadPhase]
    dsimp only
    rw [if_neg (by rw [harmed]; decide),hreg]
    have hseen := observe_state P call.world slave.targetDevice .slaveReadRequest .read
      (slave.registerPointer slave.targetDevice).toNat 0 .ok
    generalize masterServiceObserve P call.world slave.targetDevice .slaveReadRequest .read
      (slave.registerPointer slave.targetDevice).toNat 0 .ok = w at hseen
    have hload := loadWindow_spec P (w := w) (by rw [hseen]; exact hknown) hstart hcapacity call.timeoutMs
    generalize loadWindow P w slave.targetDevice (UInt8.ofNat (startAt device.regCount slave.pointer)) call.capacity
      call.timeoutMs = out at hload
    obtain ⟨⟨status,window⟩,w'⟩ := out
    dsimp only at hload ⊢
    by_cases hstatus : status ≠ .ok
    · rw [if_pos hstatus]
      exact Or.inr ⟨hstatus,Eq.refl _,Eq.refl _⟩
    rw [if_neg hstatus]
    have hload := hload (Decidable.not_not.1 hstatus)
    have hreplies := observeReplies_state P slave.targetDevice (startAt device.regCount slave.pointer) window w'
    generalize observeReplies P slave.targetDevice (startAt device.regCount slave.pointer) window w' = w'' at hreplies
    have hregisters : positions device.regCount (startAt device.regCount slave.pointer) window.length =
        List.range' (startAt device.regCount slave.pointer) window.length := positions_eq hload.inside
    have hnext : (if window.length ≠ 0 ∧ startAt device.regCount slave.pointer + window.length < device.regCount then
        startAt device.regCount slave.pointer + window.length else 0) =
        (startAt device.regCount slave.pointer + window.length) % device.regCount := by
      have hlow := hload.size.1
      have hhigh := hload.inside
      by_cases hend : startAt device.regCount slave.pointer + window.length < device.regCount
      · rw [if_pos ⟨Nat.pos_iff_ne_zero.1 hlow,hend⟩,Nat.mod_eq_of_lt hend]
      · rw [if_neg fun h => hend h.2,Nat.le_antisymm hhigh (Nat.not_lt.1 hend),Nat.mod_self]
    refine Or.inl ⟨Eq.refl _,hload.size,?_,?_,?_,?_,?_⟩
    · change startAt (registerCount slave call) slave.pointer + window.length ≤ registerCount slave call
      rw [hcount]
      exact hload.inside
    · simp only [Answer.registers,Answer.start,Answer.count,Answer.entry,hcount,hregisters,hreplies]
      exact hload.values
    · simp only [Answer.registers,Answer.start,Answer.count,Answer.entry,hcount,hregisters,hreplies]
      exact hload.valid
    · simp only [Answer.registers,Answer.start,Answer.count,Answer.Source,Answer.entry,hcount,hregisters,hreplies]
      intro r hr
      rcases hload.source r hr with hsame | ⟨env,hbus⟩
      · exact Or.inl (hsame.trans (by rw [hseen]))
      · exact Or.inr ⟨device,env,hknown,hbus⟩
    · simp only [Answer.start,Answer.count,hcount,hnext]

end Call

/-! ## Runs of calls -/

/-- Each piece of registers begins where the pointer is, and the pointer goes behind it. -/
def Law : (pointer : ℕ) → List (ℕ × List ℕ) → Prop
  | _, [] => True
  | pointer, (count,registers) :: pieces =>
    registers = positions count (startAt count pointer) registers.length ∧
      Law (if registers = [] then pointer else (startAt count pointer + registers.length) % count) pieces

/-- With one size of the register file all along, the pieces make up one round trip. -/
theorem Law.whole {count pointer : ℕ} (hcount : 0 < count) {pieces : List (ℕ × List ℕ)} (h : Law pointer pieces)
    (hpieces : ∀ piece ∈ pieces, piece.1 = count) :
    pieces.flatMap Prod.snd = positions count (startAt count pointer) (pieces.flatMap Prod.snd).length := by
  induction pieces generalizing pointer with
  | nil => exact (Rotation.positions_zero _ _).symm
  | cons piece pieces ih =>
    obtain ⟨n,registers⟩ := piece
    obtain ⟨hn,hrest⟩ := List.forall_mem_cons.1 hpieces
    obtain rfl : n = count := hn
    obtain ⟨hregisters,hlaw⟩ := h
    have hstart : startAt n (if registers = [] then pointer else (startAt n pointer + registers.length) % n) =
        (startAt n pointer + registers.length) % n := by
      split
      · rename_i hnil
        rw [hnil,List.length_nil,Nat.add_zero,Nat.mod_eq_of_lt (startAt_lt hcount pointer)]
      · exact if_neg (Nat.not_le.2 (Nat.mod_lt _ hcount))
    have htail := ih hlaw hrest
    rw [hstart] at htail
    rw [List.flatMap_cons,List.length_append,positions_add,← hregisters,← htail]

section Runs
variable (P : I2cPlatform ε)

theorem answers_spec {slave : SlaveService} (harmed : slave.readArmed slave.targetDevice = true) {calls : List (ReadCall ε)}
    (hcapacity : ∀ call ∈ calls, 0 < call.capacity) :
    (∀ a ∈ answers P slave calls, a.Exact P ∨ a.Failed) ∧
      Law slave.pointer ((answers P slave calls).map fun a => (a.count,a.registers)) := by
  induction calls generalizing slave with
  | nil => exact ⟨List.forall_mem_nil _,trivial⟩
  | cons call calls ih =>
    obtain ⟨hcall,hrest⟩ := List.forall_mem_cons.1 hcapacity
    have hspec := answer_spec P harmed hcall
    have hkeeps : (answer P slave call).after.slave.readArmed (answer P slave call).after.slave.targetDevice = true ∧
        (answer P slave call).after.slave.pointer = if (answer P slave call).registers = [] then slave.pointer
          else ((answer P slave call).start + (answer P slave call).registers.length) % (answer P slave call).count := by
      have hbefore : (answer P slave call).before = slave := Eq.refl _
      rcases hspec with hexact | hfailed
      · have hregisters : (answer P slave call).registers.length = (answer P slave call).window.length :=
          positions_length _ _ _
        have hne : (answer P slave call).registers ≠ [] :=
          List.ne_nil_of_length_pos (hregisters ▸ hexact.size.1)
        have hpositive : 0 < (answer P slave call).count := by
          have hinside := hexact.inside
          have hsize := hexact.size.1
          omega
        have hsmall : (answer P slave call).count ≤ 256 := by
          change registerCount slave call ≤ 256
          rw [registerCount]
          split
          · exact Nat.zero_le _
          · rename_i device hknown
            exact (call.world.state.devices.valid device (List.mem_of_getElem? hknown)).2.2.2
        have hlt := Nat.mod_lt ((answer P slave call).start + (answer P slave call).window.length) hpositive
        rw [hexact.pointer,if_neg hne,hregisters,hbefore]
        refine ⟨harmed,?_⟩
        simp only [SlaveService.pointer,SlaveService.point,Function.update_self]
        exact UInt8.toNat_ofNat_of_lt' (Nat.lt_of_lt_of_le hlt hsmall)
      · have hnil : (answer P slave call).registers = [] := by
          rw [Answer.registers,hfailed.window]
          exact Rotation.positions_zero _ _
        rw [hfailed.kept,if_pos hnil]
        exact ⟨harmed,Eq.refl _⟩
    obtain ⟨hanswers,hlaw⟩ := ih hkeeps.1 hrest
    rw [hkeeps.2] at hlaw
    refine ⟨List.forall_mem_cons.2 ⟨hspec,hanswers⟩,?_,?_⟩
    · rw [Answer.registers,positions_length]
      exact Eq.refl _
    · exact hlaw

end Runs

/-! ## What arms a read -/

/-- The operations of the service. Between two of them everything else may change. -/
inductive SlaveOp (ε : Type) where
  | handleFrame (world : I2cWorld ε) (frame : List UInt8) (readPhase : Bool) (capacity timeoutMs : ℕ)
  | endTransaction (world : I2cWorld ε)
  | setTarget (world : I2cWorld ε) (target : ℕ)

def slaveStep (P : I2cPlatform ε) (slave : SlaveService) : SlaveOp ε → SlaveService
  | .handleFrame world frame readPhase capacity timeoutMs =>
    (slaveServiceHandleFrame P ⟨slave,world⟩ frame readPhase capacity timeoutMs).2.slave
  | .endTransaction world => (slaveServiceEndTransaction ⟨slave,world⟩).slave
  | .setTarget world target => (slaveServiceSetTarget ⟨slave,world⟩ target).2.slave

def slaveRun (P : I2cPlatform ε) (slave : SlaveService) (ops : List (SlaveOp ε)) : SlaveService :=
  ops.foldl (slaveStep P) slave

/-- A write frame of one byte, which is a register of the target. -/
def SlaveOp.PointerWrite (slave : SlaveService) (device : ℕ) : SlaveOp ε → Prop
  | .handleFrame world frame readPhase _ _ => readPhase = false ∧ slave.targetDevice = device ∧
      ∃ reg item, frame = [reg] ∧ world.state.devices.items[device]? = some item ∧ reg.toNat < item.regCount
  | _ => False

/-- A write phase or the end of the transaction, with the device as target. -/
def SlaveOp.Ends (slave : SlaveService) (device : ℕ) : SlaveOp ε → Prop
  | .handleFrame world _ readPhase _ _ => readPhase = false ∧ slave.targetDevice = device ∧
      world.state.devices.items[device]? ≠ none
  | .endTransaction world => slave.targetDevice = device ∧ world.state.devices.items[device]? ≠ none
  | .setTarget _ _ => False

section Arming
variable (P : I2cPlatform ε)

theorem readPhase_armed (h : I2cHost ε) (device : I2cDevice) (capacity timeoutMs : ℕ) :
    (handleReadPhase P h device capacity timeoutMs).2.slave.readArmed = h.slave.readArmed ∧
      (handleReadPhase P h device capacity timeoutMs).2.slave.targetDevice = h.slave.targetDevice := by
  unfold handleReadPhase
  dsimp only
  generalize (if device.regCount ≤ (h.slave.registerPointer h.slave.targetDevice).toNat then 0
    else (h.slave.registerPointer h.slave.targetDevice).toNat) = reg
  split
  · exact ⟨Eq.refl _,Eq.refl _⟩
  · split <;> exact ⟨Eq.refl _,Eq.refl _⟩

/-- A write phase on a device of the table arms a read of it or leaves none armed. -/
theorem writePhase_armed (h : I2cHost ε) (device : I2cDevice) (frame : List UInt8) (timeoutMs : ℕ) :
    ((handleWritePhase P h device frame timeoutMs).2.slave.readArmed h.slave.targetDevice = true ↔
      ∃ reg, frame = [reg] ∧ reg.toNat < device.regCount) ∧
    (∀ reg, frame = [reg] → reg.toNat < device.regCount →
      (handleWritePhase P h device frame timeoutMs).2.slave.registerPointer h.slave.targetDevice = reg) ∧
    (∀ d, d ≠ h.slave.targetDevice →
      (handleWritePhase P h device frame timeoutMs).2.slave.readArmed d = h.slave.readArmed d) := by
  cases frame with
  | nil =>
    refine ⟨?_,fun _ hnil => (nomatch hnil),fun d hd => Function.update_of_ne hd _ _⟩
    simp [handleWritePhase,SlaveService.arm]
  | cons reg data =>
    unfold handleWritePhase
    dsimp only
    by_cases hreg : device.regCount ≤ reg.toNat
    · rw [if_pos hreg]
      refine ⟨?_,fun r hr hlt => ?_,fun d hd => Function.update_of_ne hd _ _⟩
      · simp only [SlaveService.arm,Function.update_self,Bool.false_eq_true,false_iff]
        rintro ⟨r,hr,hlt⟩
        obtain ⟨rfl,-⟩ := List.cons.inj hr
        exact absurd hlt (Nat.not_lt.2 hreg)
      · obtain ⟨rfl,-⟩ := List.cons.inj hr
        exact absurd hlt (Nat.not_lt.2 hreg)
    · rw [if_neg hreg]
      refine ⟨?_,fun r hr _ => ?_,fun d hd => ?_⟩
      · simp only [SlaveService.arm,SlaveService.point,Function.update_self,List.isEmpty_iff]
        constructor
        · rintro rfl
          exact ⟨reg,Eq.refl _,Nat.not_le.1 hreg⟩
        · rintro ⟨r,hr,-⟩
          exact (List.cons.inj hr).2
      · simp only [SlaveService.arm,SlaveService.point,Function.update_self]
        exact (List.cons.inj hr).1
      · simp only [SlaveService.arm,SlaveService.point,Function.update_of_ne hd]

/-- After a step a read is armed if the step was its pointer write, or if it was armed and has not ended. -/
theorem slaveStep_armed (slave : SlaveService) (op : SlaveOp ε) (device : ℕ) :
    (slaveStep P slave op).readArmed device = true ↔
      op.PointerWrite slave device ∨ (slave.readArmed device = true ∧ ¬op.Ends slave device) := by
  cases op with
  | setTarget world target =>
    have hsame : (slaveStep P slave (.setTarget world target)).readArmed = slave.readArmed := by
      simp only [slaveStep,slaveServiceSetTarget]
      split
      · exact Eq.refl _
      · split <;> exact Eq.refl _
    simp only [hsame,SlaveOp.PointerWrite,SlaveOp.Ends,not_false_eq_true,and_true,false_or]
  | endTransaction world =>
    have hcount : world.state.devices.items[slave.targetDevice]? = none ↔
        world.state.devices.count ≤ slave.targetDevice := List.getElem?_eq_none_iff
    simp only [slaveStep,slaveServiceEndTransaction,SlaveOp.PointerWrite,SlaveOp.Ends,false_or]
    by_cases hknown : world.state.devices.count ≤ slave.targetDevice
    · rw [if_pos hknown]
      have hends : ¬(slave.targetDevice = device ∧ world.state.devices.items[device]? ≠ none) := by
        rintro ⟨rfl,hne⟩
        exact hne (hcount.2 hknown)
      simp only [hends,not_false_eq_true,and_true]
    · rw [if_neg hknown]
      by_cases hd : device = slave.targetDevice
      · subst hd
        have hends : slave.targetDevice = slave.targetDevice ∧ world.state.devices.items[slave.targetDevice]? ≠ none :=
          ⟨Eq.refl _,fun hnone => hknown (hcount.1 hnone)⟩
        simp only [hends,SlaveService.arm,Function.update_self,Bool.false_eq_true,not_true_eq_false,and_false,ne_eq,
          not_false_eq_true,and_self]
      · have hends : ¬(slave.targetDevice = device ∧ world.state.devices.items[device]? ≠ none) :=
          fun h => hd h.1.symm
        simp only [SlaveService.arm,Function.update_of_ne hd,hends,not_false_eq_true,and_true]
  | handleFrame world frame readPhase capacity timeoutMs =>
    cases hknown : world.state.devices.items[slave.targetDevice]? with
    | none =>
      have hget : devicesGet world.state.devices slave.targetDevice = .error .notFound := by rw [devicesGet,hknown]
      simp only [slaveStep,slaveServiceHandleFrame,hget,SlaveOp.PointerWrite,SlaveOp.Ends]
      constructor
      · intro harmed
        refine Or.inr ⟨harmed,?_⟩
        rintro ⟨-,rfl,hne⟩
        exact hne hknown
      · rintro (⟨-,rfl,reg,item,-,hitem,-⟩ | ⟨harmed,-⟩)
        · rw [hknown] at hitem
          cases hitem
        · exact harmed
    | some item =>
      have hget : devicesGet world.state.devices slave.targetDevice = .ok item := by rw [devicesGet,hknown]
      simp only [slaveStep,slaveServiceHandleFrame,hget,SlaveOp.PointerWrite,SlaveOp.Ends]
      cases readPhase with
      | true =>
        rw [if_pos (Eq.refl _),(readPhase_armed P ⟨slave,world⟩ item capacity timeoutMs).1]
        simp
      | false =>
        rw [if_neg Bool.false_ne_true]
        obtain ⟨htarget,-,hother⟩ := writePhase_armed P ⟨slave,world⟩ item frame timeoutMs
        by_cases hd : device = slave.targetDevice
        · subst hd
          refine htarget.trans ?_
          constructor
          · rintro ⟨reg,hframe,hreg⟩
            exact Or.inl ⟨Eq.refl _,Eq.refl _,reg,item,hframe,hknown,hreg⟩
          · rintro (⟨-,-,reg,item',hframe,hitem,hreg⟩ | ⟨-,hnot⟩)
            · obtain rfl := Option.some.inj (hknown.symm.trans hitem)
              exact ⟨reg,hframe,hreg⟩
            · exact absurd ⟨Eq.refl _,Eq.refl _,by rw [hknown]; simp⟩ hnot
        · have hne : slave.targetDevice ≠ device := Ne.symm hd
          rw [hother device hd]
          simp [hne]

/-- In a run a read is armed if and only if its pointer was written and it has not ended since. -/
theorem slaveRun_armed {slave : SlaveService} {device : ℕ} (hfirst : slave.readArmed device = false) (ops : List (SlaveOp ε)) :
    (slaveRun P slave ops).readArmed device = true ↔ ∃ pre op post, ops = pre ++ op :: post ∧
      op.PointerWrite (slaveRun P slave pre) device ∧
      ∀ front next rest, post = front ++ next :: rest → ¬next.Ends (slaveRun P slave (pre ++ op :: front)) device := by
  induction ops using List.reverseRecOn with
  | nil =>
    rw [slaveRun,List.foldl_nil,hfirst]
    simp
  | append_singleton ops last ih =>
    have hstep : slaveRun P slave (ops ++ [last]) = slaveStep P (slaveRun P slave ops) last := List.foldl_concat _ _ _ _
    rw [hstep,slaveStep_armed,ih]
    constructor
    · rintro (hwrite | ⟨⟨pre,op,post,rfl,hwrite,hkeeps⟩,hlast⟩)
      · exact ⟨ops,last,[],Eq.refl _,hwrite,fun front next rest h => by simp at h⟩
      · refine ⟨pre,op,post ++ [last],by simp,hwrite,fun front next rest h => ?_⟩
        rcases List.eq_nil_or_concat rest with rfl | ⟨rest',tail,rfl⟩
        · obtain ⟨rfl,hnext⟩ := List.append_inj' h (Eq.refl _)
          obtain rfl : last = next := List.singleton_inj.1 hnext
          exact hlast
        · have hsplit : post ++ [last] = (front ++ next :: rest') ++ [tail] := by simpa using h
          obtain ⟨hpost,-⟩ := List.append_inj' hsplit (Eq.refl _)
          exact hkeeps front next rest' hpost
    · rintro ⟨pre,op,post,hops,hwrite,hkeeps⟩
      rcases List.eq_nil_or_concat post with rfl | ⟨post',tail,rfl⟩
      · obtain ⟨rfl,hlast⟩ := List.append_inj' hops (Eq.refl _)
        obtain rfl : last = op := List.singleton_inj.1 hlast
        exact Or.inl hwrite
      · have hsplit : ops ++ [last] = (pre ++ op :: post') ++ [tail] := by simpa using hops
        obtain ⟨rfl,hlast⟩ := List.append_inj' hsplit (Eq.refl _)
        obtain rfl : last = tail := List.singleton_inj.1 hlast
        refine Or.inr ⟨⟨pre,op,post',Eq.refl _,hwrite,fun front next rest h => ?_⟩,?_⟩
        · exact hkeeps front next (rest ++ [last]) (by rw [h]; simp)
        · exact hkeeps post' last [] List.concat_eq_append

end Arming

end Bvstk.I2c
