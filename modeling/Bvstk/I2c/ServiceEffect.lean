import Bvstk.I2c.SlaveService

/-! # What the I2C services write

Which register writes the operations of the master service and the frames of the host
make, and what else they change: a write is refused without a trace or goes out once, a
frame forwards a prefix of its bytes, every other operation writes nothing.
-/
namespace Bvstk.I2c
open Config Events CallLog
variable {ε : Type}

/-! ## What may be written -/

/-- The device behind `deviceId` has this register, and its policy permits the value. -/
structure I2cState.Allows (s : I2cState) (deviceId : ℕ) (device : I2cDevice) (reg value : UInt8) : Prop where
  known : s.devices.items[deviceId]? = some device
  inside : reg.toNat < device.regCount
  small : value ≤ device.maxValueCode
  policy : ∃ entry, s.policy.items[deviceId]? = some entry ∧ entry.Permits reg value

/-- Only allowed writes go out. -/
def Permitted (s : I2cState) : I2cCall → Prop
  | .writeReg addr reg value _ => ∃ deviceId device, s.Allows deviceId device reg value ∧ device.addr7b = addr
  | _ => True

/-- A register write as it goes out on the bus. -/
abbrev BusWrite := UInt8 × UInt8 × UInt8

def I2cCall.busWrite : I2cCall → Option BusWrite
  | .writeReg addr reg value _ => some (addr,reg,value)
  | _ => none

def busWrites (calls : List (I2cState × I2cCall)) : List BusWrite := calls.filterMap fun p => p.2.busWrite

/-- From `w` to `w'` exactly these writes went out, all of them allowed, devices and
policies stayed, and the cache only changed where `changed` says so. -/
structure Forwards (writes : List BusWrite) (changed : ℕ → UInt8 → Prop) (w w' : I2cWorld ε) : Prop where
  devices : w'.state.devices = w.state.devices
  policy : w'.state.policy = w.state.policy
  cache : ∀ deviceId reg, ¬changed deviceId reg →
    w'.state.cache.entries deviceId reg = w.state.cache.entries deviceId reg
  calls : ∃ new, w'.calls = w.calls ++ new ∧ busWrites new = writes ∧ ∀ p ∈ new, Permitted p.1 p.2

section
variable {w w' w'' : I2cWorld ε} {writes writes' : List BusWrite} {changed changed' : ℕ → UInt8 → Prop}

/-- The device that an answered lookup returns. -/
theorem devicesGet_eq_ok {ds : I2cDevices} {deviceId : ℕ} {d : I2cDevice} (h : devicesGet ds deviceId = .ok d) :
    ds.items[deviceId]? = some d := by
  unfold devicesGet at h
  cases hd : ds.items[deviceId]? with
  | none => simp [hd] at h
  | some e => simpa [hd] using h

theorem devicesGet_eq_error {ds : I2cDevices} {deviceId : ℕ} {status : Status}
    (h : devicesGet ds deviceId = .error status) : ds.items[deviceId]? = none ∧ status = .notFound := by
  unfold devicesGet at h
  cases hd : ds.items[deviceId]? with
  | none => exact ⟨rfl,by simpa [hd] using h.symm⟩
  | some e => simp [hd] at h

/-- No bus write and no change of the cache. -/
abbrev Quiet (w w' : I2cWorld ε) : Prop := Forwards [] (fun _ _ => False) w w'

theorem quiet_refl (w : I2cWorld ε) : Quiet w w :=
  ⟨rfl,rfl,fun _ _ _ => rfl,[],(List.append_nil _).symm,rfl,fun _ h => absurd h List.not_mem_nil⟩

theorem Forwards.trans (h : Forwards writes changed w w') (h' : Forwards writes' changed' w' w'') :
    Forwards (writes ++ writes') (fun d r => changed d r ∨ changed' d r) w w'' := by
  obtain ⟨new,hnew,hwrites,hperm⟩ := h.calls
  obtain ⟨new',hnew',hwrites',hperm'⟩ := h'.calls
  refine ⟨h'.devices.trans h.devices,h'.policy.trans h.policy,?_,new ++ new',?_,?_,?_⟩
  · intro d r hno
    push Not at hno
    exact (h'.cache d r hno.2).trans (h.cache d r hno.1)
  · rw [hnew', hnew, List.append_assoc]
  · rw [busWrites, List.filterMap_append]
    exact congrArg₂ _ hwrites hwrites'
  · intro p hp
    rcases List.mem_append.mp hp with hp | hp
    · exact hperm p hp
    · exact hperm' p hp

theorem Forwards.mono (h : Forwards writes changed w w') (himp : ∀ d r, changed d r → changed' d r) :
    Forwards writes changed' w w' :=
  ⟨h.devices,h.policy,fun d r hno => h.cache d r fun hc => hno (himp d r hc),h.calls⟩

theorem Forwards.then_quiet (h : Forwards writes changed w w') (h' : Quiet w' w'') :
    Forwards writes changed w w'' := by
  have hboth := h.trans h'
  rw [List.append_nil] at hboth
  exact hboth.mono fun _ _ hc => hc.elim id False.elim

theorem Forwards.after_quiet (h : Quiet w w') (h' : Forwards writes changed w' w'') :
    Forwards writes changed w w'' :=
  (h.trans h').mono fun _ _ hc => hc.elim False.elim id

theorem Quiet.trans (h : Quiet w w') (h' : Quiet w' w'') : Quiet w w'' := Forwards.then_quiet h h'

/-- A call other than a register write. -/
theorem quiet_call {c : I2cCall} (hc : c.busWrite = none) (hstate : w'.state.devices = w.state.devices)
    (hpolicy : w'.state.policy = w.state.policy) (hcache : w'.state.cache = w.state.cache)
    (hcalls : w'.calls = w.calls) : Quiet w (w'.call c) := by
  refine ⟨hstate,hpolicy,fun d r _ => by rw [call_state, hcache],[(w'.state,c)],by rw [World.call, hcalls],?_,?_⟩
  · simp [busWrites, hc]
  · intro p hp
    obtain rfl := List.mem_singleton.mp hp
    cases c with
    | writeReg => contradiction
    | _ => trivial

variable (P : I2cPlatform ε)

theorem quiet_emitFlags (w : I2cWorld ε) (type : EventType) (status : Status) (source : EventSource) (op : EventOp)
    (device : I2cDevice) (reg : ℕ) (value : UInt8) (flags : ℕ) :
    Quiet w (emitFlags P w type status source op device reg value flags) :=
  quiet_call rfl rfl rfl rfl rfl

theorem quiet_observe (w : I2cWorld ε) (deviceId : ℕ) (type : EventType) (op : EventOp) (reg : ℕ) (value : UInt8)
    (status : Status) : Quiet w (masterServiceObserve P w deviceId type op reg value status) := by
  unfold masterServiceObserve
  split
  · exact quiet_refl w
  · exact quiet_emitFlags P w _ _ _ _ _ _ _ _

theorem quiet_recordResponse (w : I2cWorld ε) (deviceId : ℕ) (address : UInt8) (status : Status) (read : Bool) :
    Quiet w (recordResponse w deviceId address status read) := by
  unfold recordResponse
  split
  · exact quiet_refl w
  · split
    · exact quiet_refl w
    · exact quiet_call rfl rfl rfl rfl rfl

/-- Rewriting one entry of the cache. -/
theorem forwards_setEntry (w : I2cWorld ε) {env : ε} (deviceId : ℕ) (reg : UInt8) (e e' : RegisterEntry) :
    Forwards [] (fun d r => d = deviceId ∧ r = reg) w
      (World.call { state := w.state.setEntry deviceId reg e, env := env, calls := w.calls }
        (.entry deviceId reg e')) := by
  refine ⟨rfl,rfl,?_,_,rfl,rfl,?_⟩
  · intro d r hno
    change (Function.update w.state.cache.entries deviceId _) d r = _
    by_cases hd : d = deviceId
    · subst hd
      have hr : r ≠ reg := fun hr => hno ⟨rfl,hr⟩
      rw [Function.update_self, Function.update_of_ne hr]
    · rw [Function.update_of_ne hd]
  · intro p hp
    obtain rfl := List.mem_singleton.mp hp
    trivial

theorem forwards_cacheWrite (w : I2cWorld ε) (deviceId : ℕ) (reg value : UInt8) :
    Forwards [] (fun d r => d = deviceId ∧ r = reg) w (cacheWrite P w deviceId reg value).2 := by
  unfold cacheWrite
  split
  · exact (quiet_refl w).mono fun _ _ hc => hc.elim
  · exact forwards_setEntry w deviceId reg _ _

theorem forwards_cacheSeed (w : I2cWorld ε) (deviceId : ℕ) (reg value : UInt8) :
    Forwards [] (fun d r => d = deviceId ∧ r = reg) w (cacheSeed P w deviceId reg value).2 := by
  unfold cacheSeed
  split
  · exact (quiet_refl w).mono fun _ _ hc => hc.elim
  · exact forwards_setEntry w deviceId reg _ _

theorem forwards_cacheInvalidate (w : I2cWorld ε) (deviceId : ℕ) (reg : UInt8) :
    Forwards [] (fun d r => d = deviceId ∧ r = reg) w (cacheInvalidate w deviceId reg).2 := by
  unfold cacheInvalidate
  split
  · exact (quiet_refl w).mono fun _ _ hc => hc.elim
  · exact forwards_setEntry w deviceId reg _ _

theorem forwards_cacheResponse (w : I2cWorld ε) (deviceId : ℕ) (target : I2cDevice) (reg value : UInt8)
    (status : Status) :
    Forwards [] (fun d r => d = deviceId ∧ r = reg) w (cacheResponse P w deviceId target reg value status) := by
  unfold cacheResponse
  split
  · exact (quiet_refl w).mono fun _ _ hc => hc.elim
  · split
    · split
      · exact forwards_cacheWrite P w deviceId reg value
      · exact forwards_cacheInvalidate w deviceId reg
    · exact (quiet_refl w).mono fun _ _ hc => hc.elim

/-! ## Writes -/

theorem forwards_backendWrite {deviceId : ℕ} {device : I2cDevice} {reg value : UInt8}
    (hallows : w.state.Allows deviceId device reg value) (timeoutMs : ℕ) :
    Forwards [(device.addr7b,reg,value)] (fun _ _ => False) w (backendWrite P w device reg value timeoutMs).2 := by
  refine ⟨rfl,rfl,fun _ _ _ => rfl,_,rfl,rfl,?_⟩
  intro p hp
  obtain rfl := List.mem_singleton.mp hp
  exact ⟨deviceId,device,hallows,rfl⟩

theorem forwards_forwardWrite {deviceId : ℕ} {device : I2cDevice} {reg value : UInt8}
    (hallows : w.state.Allows deviceId device reg value) (source : EventSource) (wasPresent : Bool) (timeoutMs : ℕ) :
    Forwards [(device.addr7b,reg,value)] (fun d r => d = deviceId ∧ r = reg) w
      (forwardWrite P w deviceId device reg value source wasPresent timeoutMs).2 := by
  have hbus := forwards_backendWrite P hallows timeoutMs
  unfold forwardWrite
  generalize backendWrite P w device reg value timeoutMs = out at hbus ⊢
  obtain ⟨status,w₁⟩ := out
  have hsent := (hbus.then_quiet (quiet_recordResponse w₁ deviceId device.addr7b status false)).then_quiet
    (quiet_emitFlags P _ .masterWrite status source .write device reg.toNat value (confirmedFlag wasPresent status))
  dsimp only at hsent ⊢
  generalize emitFlags P _ .masterWrite status source .write device reg.toNat value
    (confirmedFlag wasPresent status) = w₂ at hsent ⊢
  split
  · have hfault := hsent.then_quiet (quiet_emitFlags P w₂ .fault status source .write device reg.toNat value
      eventFlagNone)
    exact (hfault.trans (forwards_cacheResponse P _ deviceId device reg 0 status)).mono
      fun _ _ hc => hc.elim False.elim id
  · have hcached := hsent.trans (forwards_cacheResponse P w₂ deviceId device reg value .ok)
    exact (hcached.then_quiet (quiet_emitFlags P _ .regCommit .ok source .write device reg.toNat value
      eventFlagNone)).mono fun _ _ hc => hc.elim False.elim id

/-- The calls that publish an event. -/
def IsPublish (_ : I2cState) (c : I2cCall) : Prop := ∃ event, c = .publish event

/-- What a write does: it is refused without a trace but its events, or it is allowed and
goes out once. -/
inductive WriteEffect (w : I2cWorld ε) (deviceId : ℕ) (reg value : UInt8) : Status × I2cWorld ε → Prop where
  | refused {status : Status} {w' : I2cWorld ε} (hstatus : status ≠ .ok)
      (hno : ∀ device, ¬w.state.Allows deviceId device reg value) (hstate : w'.state = w.state)
      (hcalls : Makes IsPublish w w') : WriteEffect w deviceId reg value (status,w')
  | forwarded {device : I2cDevice} {status : Status} {w' : I2cWorld ε}
      (hallows : w.state.Allows deviceId device reg value)
      (h : Forwards [(device.addr7b,reg,value)] (fun d r => d = deviceId ∧ r = reg) w w') :
      WriteEffect w deviceId reg value (status,w')

theorem makes_emitFlags (w : I2cWorld ε) (type : EventType) (status : Status) (source : EventSource) (op : EventOp)
    (device : I2cDevice) (reg : ℕ) (value : UInt8) (flags : ℕ) :
    Makes IsPublish w (emitFlags P w type status source op device reg value flags) :=
  ⟨_,rfl,fun _ hp => List.mem_singleton.mp hp ▸ ⟨_,rfl⟩⟩

theorem write_effect (w : I2cWorld ε) (deviceId : ℕ) (reg value : UInt8) (source : EventSource) (timeoutMs : ℕ) :
    WriteEffect w deviceId reg value (masterServiceWrite P w deviceId reg value source timeoutMs) := by
  unfold masterServiceWrite
  cases hdev : devicesGet w.state.devices deviceId with
  | error status =>
    obtain ⟨hnone,hstatus⟩ := devicesGet_eq_error hdev
    refine .refused (hstatus ▸ by decide) (fun device hallows => ?_) rfl (makes_refl w)
    exact absurd (hnone.symm.trans hallows.known) (by simp)
  | ok device =>
    have hknown := devicesGet_eq_ok hdev
    have hsame : ∀ device', w.state.Allows deviceId device' reg value → device' = device :=
      fun device' hallows => Option.some.inj (hallows.known.symm.trans hknown)
    have hattempt := makes_emitFlags P w .regAttempt .ok source .write device reg.toNat value eventFlagNone
    dsimp only
    split
    · rename_i hrange
      refine .refused (by decide) ?_ rfl (hattempt.trans (makes_emitFlags P _ _ _ _ _ _ _ _ _))
      intro device' hallows
      obtain rfl := hsame device' hallows
      rcases hrange with hreg | hvalue
      · exact absurd hallows.inside (Nat.not_lt.mpr hreg)
      · exact absurd hallows.small (UInt8.not_le.mpr hvalue)
    · split
      · rename_i hrange hdenied
        refine .refused (by decide) ?_ rfl (hattempt.trans (makes_emitFlags P _ _ _ _ _ _ _ _ _))
        intro device' hallows
        obtain rfl := hsame device' hallows
        have hpermits := policyPermits_iff.mpr ⟨hallows.inside,hallows.small,hallows.policy⟩
        exact absurd (hpermits.symm.trans hdenied) (by decide)
      · rename_i hrange hpermitted
        obtain ⟨hinside,hsmall,hpolicy⟩ := policyPermits_iff.mp (by simpa using hpermitted)
        have hallows : w.state.Allows deviceId device reg value := ⟨hknown,hinside,hsmall,hpolicy⟩
        have hattempted := quiet_emitFlags P w .regAttempt .ok source .write device reg.toNat value eventFlagNone
        have hrest := forwards_forwardWrite P (w := emit P w .regAttempt .ok source .write device reg.toNat value)
          hallows source (presenceConfirmed w.state deviceId) timeoutMs
        exact .forwarded hallows (Forwards.after_quiet hattempted hrest)

/-! ## Frames -/

/-- The bytes of a frame as register writes, from register `reg` on. -/
def writesFrom (addr : UInt8) : ℕ → List UInt8 → List BusWrite
  | _, [] => []
  | reg, value :: data => (addr,UInt8.ofNat reg,value) :: writesFrom addr (reg + 1) data

theorem Forwards.allows (h : Forwards writes changed w w') {deviceId : ℕ} {device : I2cDevice} {reg value : UInt8}
    (hallows : w'.state.Allows deviceId device reg value) : w.state.Allows deviceId device reg value :=
  ⟨h.devices ▸ hallows.known,hallows.inside,hallows.small,h.policy ▸ hallows.policy⟩

theorem busWrites_eq_nil {new : List (I2cState × I2cCall)} (h : ∀ p ∈ new, IsPublish p.1 p.2) :
    busWrites new = [] := by
  refine List.filterMap_eq_nil_iff.mpr fun p hp => ?_
  obtain ⟨event,hevent⟩ := h p hp
  rw [hevent]
  rfl

theorem quiet_of_publishes (hstate : w'.state = w.state) (hcalls : Makes IsPublish w w') : Quiet w w' := by
  obtain ⟨new,hnew,hpublish⟩ := hcalls
  refine ⟨by rw [hstate],by rw [hstate],fun _ _ _ => by rw [hstate],new,hnew,busWrites_eq_nil hpublish,?_⟩
  intro p hp
  obtain ⟨event,hevent⟩ := hpublish p hp
  rw [hevent]
  trivial

theorem quiet_observeCaptures (target : ℕ) (data : List UInt8) (reg : ℕ) (w : I2cWorld ε) :
    Quiet w (observeCaptures P target reg data w) := by
  induction data generalizing reg w with
  | nil => exact quiet_refl w
  | cons value data ih => exact (quiet_observe P w _ _ _ _ _ _).trans (ih _ _)

theorem quiet_auditTail (target : ℕ) (status : Status) (data : List UInt8) (reg : ℕ) (w : I2cWorld ε) :
    Quiet w (auditTail P target status reg data w) := by
  induction data generalizing reg w with
  | nil => exact quiet_refl w
  | cons value data ih =>
    have hattempt := quiet_observe P w target .regAttempt .write reg value .ok
    have hfault := quiet_observe P (masterServiceObserve P w target .regAttempt .write reg value .ok)
      target .fault .write reg value status
    exact (hattempt.trans hfault).trans (ih _ _)

/-- From `w` to `w'` the first `n` of the bytes `data` were written to consecutive
registers, and each of them was allowed. -/
structure ForwardsFirst (target : ℕ) (device : I2cDevice) (reg : ℕ) (data : List UInt8) (n : ℕ)
    (w w' : I2cWorld ε) : Prop where
  some_bytes : n ≤ data.length
  inside : ∀ j, j < n → reg + j < device.regCount
  allowed : ∀ j value, j < n → data[j]? = some value →
    w.state.Allows target device (UInt8.ofNat (reg + j)) value
  effect : Forwards (writesFrom device.addr7b reg (data.take n))
    (fun d r => d = target ∧ ∃ j < n, r = UInt8.ofNat (reg + j)) w w'

theorem forwardsFirst_zero {target : ℕ} {device : I2cDevice} {reg : ℕ} {data : List UInt8} (h : Quiet w w') :
    ForwardsFirst target device reg data 0 w w' where
  some_bytes := Nat.zero_le _
  inside := fun j hj => absurd hj (Nat.not_lt_zero j)
  allowed := fun j _ hj => absurd hj (Nat.not_lt_zero j)
  effect := h.mono fun _ _ hc => hc.elim

theorem ForwardsFirst.cons {target : ℕ} {device : I2cDevice} {reg n : ℕ} {value : UInt8} {data : List UInt8}
    (hreg : reg < device.regCount) (hallows : w.state.Allows target device (UInt8.ofNat reg) value)
    (hfirst : Forwards [(device.addr7b,UInt8.ofNat reg,value)] (fun d r => d = target ∧ r = UInt8.ofNat reg) w w')
    (hrest : ForwardsFirst target device (reg + 1) data n w' w'') :
    ForwardsFirst target device reg (value :: data) (n + 1) w w'' where
  some_bytes := Nat.succ_le_succ hrest.some_bytes
  inside := by
    intro j hj
    cases j with
    | zero => exact hreg
    | succ j =>
      have h := hrest.inside j (Nat.lt_of_succ_lt_succ hj)
      omega
  allowed := by
    intro j v hj hv
    cases j with
    | zero =>
      obtain rfl : value = v := by simpa using hv
      exact hallows
    | succ j =>
      have h := hfirst.allows (hrest.allowed j v (Nat.lt_of_succ_lt_succ hj) (by simpa using hv))
      rwa [Nat.add_right_comm, Nat.add_assoc] at h
  effect := by
    refine (hfirst.trans hrest.effect).mono ?_
    rintro d r (⟨rfl,rfl⟩ | ⟨rfl,j,hj,rfl⟩)
    · exact ⟨rfl,0,Nat.succ_pos n,rfl⟩
    · exact ⟨rfl,j + 1,Nat.succ_lt_succ hj,by rw [Nat.add_right_comm, Nat.add_assoc]⟩

/-- The loop over the data bytes forwards a prefix of them. -/
theorem forwardBytes_first (target : ℕ) (device : I2cDevice) (timeoutMs : ℕ) (data : List UInt8) :
    ∀ (reg : ℕ) (w : I2cWorld ε), w.state.devices.items[target]? = some device →
      ∃ n, ForwardsFirst target device reg data n w (forwardBytes P target device.regCount timeoutMs reg data w).2 := by
  induction data with
  | nil => exact fun reg w _ => ⟨0,forwardsFirst_zero (quiet_refl w)⟩
  | cons value data ih =>
    intro reg w hknown
    unfold forwardBytes
    split
    · exact ⟨0,forwardsFirst_zero (quiet_auditTail P target .range (value :: data) reg w)⟩
    · rename_i hreg
      have heffect := write_effect P w target (UInt8.ofNat reg) value .host timeoutMs
      generalize masterServiceWrite P w target (UInt8.ofNat reg) value .host timeoutMs = out at heffect ⊢
      cases heffect with
      | refused hstatus hno hstate hcalls =>
        simp only [hstatus, ne_eq, not_false_eq_true, if_true]
        have hquiet := quiet_of_publishes hstate hcalls
        exact ⟨0,forwardsFirst_zero (hquiet.trans (quiet_auditTail P target .notReady data (reg + 1) _))⟩
      | @forwarded device' status w' hallows hfirst =>
        obtain rfl : device' = device := Option.some.inj (hallows.known.symm.trans hknown)
        dsimp only
        split
        · have htail := quiet_auditTail P target .notReady data (reg + 1) w'
          exact ⟨1,ForwardsFirst.cons (Nat.not_le.mp hreg) hallows hfirst (forwardsFirst_zero htail)⟩
        · obtain ⟨n,hrest⟩ := ih (reg + 1) w' (hfirst.devices ▸ hknown)
          exact ⟨n + 1,ForwardsFirst.cons (Nat.not_le.mp hreg) hallows hfirst hrest⟩

/-- What a write frame does, to a target that is known and to one that is not. -/
inductive FrameEffect (h : I2cHost ε) : List UInt8 → I2cWorld ε → Prop where
  | ignored {frame : List UInt8} {w' : I2cWorld ε}
      (hwhy : h.world.state.devices.items[h.slave.targetDevice]? = none ∨ frame = [])
      (hquiet : Quiet h.world w') : FrameEffect h frame w'
  | forwarded {device : I2cDevice} {reg : UInt8} {data : List UInt8} {n : ℕ} {w' : I2cWorld ε}
      (hknown : h.world.state.devices.items[h.slave.targetDevice]? = some device)
      (hfirst : ForwardsFirst h.slave.targetDevice device reg.toNat data n h.world w') :
      FrameEffect h (reg :: data) w'

theorem ForwardsFirst.after_quiet {target : ℕ} {device : I2cDevice} {reg n : ℕ} {data : List UInt8}
    (h : Quiet w w') (h' : ForwardsFirst target device reg data n w' w'') :
    ForwardsFirst target device reg data n w w'' where
  some_bytes := h'.some_bytes
  inside := h'.inside
  allowed := fun j value hj hvalue => h.allows (h'.allowed j value hj hvalue)
  effect := Forwards.after_quiet h h'.effect

theorem frame_effect (h : I2cHost ε) (frame : List UInt8) (capacity timeoutMs : ℕ) :
    FrameEffect h frame (slaveServiceHandleFrame P h frame false capacity timeoutMs).2.world := by
  unfold slaveServiceHandleFrame
  cases hdev : devicesGet h.world.state.devices h.slave.targetDevice with
  | error status => exact .ignored (Or.inl (devicesGet_eq_error hdev).1) (quiet_refl _)
  | ok device =>
    have hknown := devicesGet_eq_ok hdev
    simp only [Bool.false_eq_true, if_false, handleWritePhase]
    cases frame with
    | nil => exact .ignored (Or.inr rfl) (quiet_refl _)
    | cons reg data =>
      have hpointer := quiet_observe P h.world h.slave.targetDevice .slavePointer .write reg.toNat reg .ok
      have hcaptures := quiet_observeCaptures P h.slave.targetDevice data reg.toNat
        (masterServiceObserve P h.world h.slave.targetDevice .slavePointer .write reg.toNat reg .ok)
      have hseen := hpointer.trans hcaptures
      dsimp only
      split
      · have htail := hseen.trans (quiet_auditTail P h.slave.targetDevice .range data reg.toNat _)
        exact .forwarded hknown (forwardsFirst_zero htail)
      · obtain ⟨n,hfirst⟩ := forwardBytes_first P h.slave.targetDevice device timeoutMs data reg.toNat _
          (hseen.devices ▸ hknown)
        exact .forwarded hknown (hfirst.after_quiet hseen)

/-! ## Every operation -/

theorem Forwards.makes (h : Forwards writes changed w w') : Makes Permitted w w' := by
  obtain ⟨new,hnew,-,hpermitted⟩ := h.calls
  exact ⟨new,hnew,hpermitted⟩

theorem WriteEffect.makes {deviceId : ℕ} {reg value : UInt8} {out : Status × I2cWorld ε}
    (h : WriteEffect w deviceId reg value out) : Makes Permitted w out.2 := by
  cases h with
  | refused hstatus hno hstate hcalls => exact (quiet_of_publishes hstate hcalls).makes
  | forwarded hallows h => exact h.makes

theorem FrameEffect.makes {h : I2cHost ε} {frame : List UInt8} (heffect : FrameEffect h frame w') :
    Makes Permitted h.world w' := by
  cases heffect with
  | ignored hwhy hquiet => exact hquiet.makes
  | forwarded hknown hfirst => exact hfirst.effect.makes

theorem makes_readFrom (w : I2cWorld ε) (deviceId : ℕ) (reg : UInt8) (source : EventSource) (timeoutMs : ℕ) :
    Makes Permitted w (masterServiceReadFrom P w deviceId reg source timeoutMs).2 := by
  unfold masterServiceReadFrom
  split
  · exact makes_refl w
  · rename_i device hdevice
    split
    · exact makes_refl w
    · dsimp only
      have hbus : Quiet w (backendRead P w device reg timeoutMs).2 := quiet_call rfl rfl rfl rfl rfl
      generalize backendRead P w device reg timeoutMs = out at hbus ⊢
      obtain ⟨⟨status,value⟩,w₁⟩ := out
      dsimp only at hbus ⊢
      have hrecord := hbus.trans (quiet_recordResponse w₁ deviceId device.addr7b status true)
      have hemit := hrecord.trans (quiet_emitFlags P _ .masterRead status source .read device reg.toNat
        (if status = .ok then value else 0) (confirmedFlag (presenceConfirmed w.state deviceId) status))
      exact hemit.makes.trans (forwards_cacheResponse P _ deviceId device reg _ status).makes

theorem makes_observeReplies (target : ℕ) (window : List UInt8) (reg : ℕ) (w : I2cWorld ε) :
    Makes Permitted w (observeReplies P target reg window w) := by
  induction window generalizing reg w with
  | nil => exact makes_refl w
  | cons value window ih => exact (quiet_observe P w _ _ _ _ _ _).makes.trans (ih _ _)

theorem makes_loadWindow (w : I2cWorld ε) (deviceId : ℕ) (reg : UInt8) (capacity timeoutMs : ℕ) :
    Makes Permitted w (loadWindow P w deviceId reg capacity timeoutMs).2 := by
  have hread := makes_readFrom P w deviceId reg .host timeoutMs
  unfold loadWindow
  split
  · exact makes_refl w
  · split
    · exact makes_refl w
    · split
      · exact makes_refl w
      · dsimp only
        split
        · exact hread
        · exact hread

theorem makes_readPhase (h : I2cHost ε) (device : I2cDevice) (capacity timeoutMs : ℕ) :
    Makes Permitted h.world (handleReadPhase P h device capacity timeoutMs).2.world := by
  unfold handleReadPhase
  dsimp only
  have hseen := (quiet_observe P h.world h.slave.targetDevice .slaveReadRequest .read
    (h.slave.registerPointer h.slave.targetDevice).toNat 0 .ok).makes
  split
  · exact hseen
  · generalize (if device.regCount ≤ (h.slave.registerPointer h.slave.targetDevice).toNat then 0
      else (h.slave.registerPointer h.slave.targetDevice).toNat) = reg
    have hload := hseen.trans (makes_loadWindow P _ h.slave.targetDevice (UInt8.ofNat reg) capacity timeoutMs)
    split
    · exact hload
    · exact hload.trans (makes_observeReplies P _ _ _ _)

theorem makes_frame (h : I2cHost ε) (frame : List UInt8) (readPhase : Bool) (capacity timeoutMs : ℕ) :
    Makes Permitted h.world (slaveServiceHandleFrame P h frame readPhase capacity timeoutMs).2.world := by
  cases readPhase with
  | false => exact (frame_effect P h frame capacity timeoutMs).makes
  | true =>
    unfold slaveServiceHandleFrame
    split
    · exact makes_refl _
    · exact makes_readPhase P h _ capacity timeoutMs

theorem makes_invalidateFrom (deviceId left r : ℕ) (w : I2cWorld ε) :
    Makes Permitted w (invalidateFrom deviceId left r w) := by
  induction left generalizing r w with
  | zero => exact makes_refl w
  | succ left ih => exact (forwards_cacheInvalidate w deviceId (UInt8.ofNat r)).makes.trans (ih _ _)

theorem makes_dropOldDevice (w : I2cWorld ε) (deviceId : ℕ) (previous device : I2cDevice) :
    Makes Permitted w (dropOldDevice w deviceId previous device) := by
  unfold dropOldDevice
  generalize i2cMaxRegCount = left
  split
  · have hpresence : Makes Permitted w { w with state := w.state.setPresence deviceId .unknown } :=
      makes_of_calls rfl
    exact hpresence.trans (makes_invalidateFrom deviceId left 0 _)
  · exact makes_refl w

theorem makes_applyPolicyConfig (w : I2cWorld ε) (deviceId : ℕ) (config : I2cDeviceConfig) :
    Makes Permitted w (applyPolicyConfig w deviceId config).2 := by
  have hpolicy : Makes Permitted w
      (setPolicy w (policySetConfig w.state.policy deviceId config) (edit_length _ _ _)).2 := makes_of_calls rfl
  unfold applyPolicyConfig
  dsimp only
  split
  · exact hpolicy.trans (makes_call trivial)
  · exact hpolicy

theorem makes_setConfig (w : I2cWorld ε) (deviceId : ℕ) (config : I2cDeviceConfig) :
    Makes Permitted w (masterServiceSetConfig w deviceId config).2 := by
  unfold masterServiceSetConfig
  cases hprevious : devicesGet w.state.devices deviceId with
  | error status => exact makes_refl w
  | ok previous =>
    have hdevice : Makes Permitted w (setDevice w deviceId (deviceOf config)).2 := makes_of_calls rfl
    have hdrop := hdevice.trans (makes_dropOldDevice _ deviceId previous (deviceOf config))
    dsimp only
    split
    · exact makes_refl w
    · split
      · exact hdevice
      · exact hdrop.trans (makes_applyPolicyConfig _ deviceId config)

/-- An operation that only edits a policy. -/
theorem makes_editPolicy (w : I2cWorld ε) {c : Prop} [Decidable c] {status : Status} {out : Status × I2cPolicy}
    (h : out.2.items.length = w.state.policy.items.length) :
    Makes Permitted w (if c then (status,w) else setPolicy w out h).2 := by
  split
  · exact makes_refl w
  · exact makes_of_calls rfl

theorem makes_ruleAllow (w : I2cWorld ε) (deviceId : ℕ) (reg value : UInt8) :
    Makes Permitted w (masterServiceRuleAllow w deviceId reg value).2 := by
  unfold masterServiceRuleAllow
  split
  · exact makes_refl w
  · exact makes_of_calls rfl

theorem makes_ruleDeny (w : I2cWorld ε) (deviceId : ℕ) (reg value : UInt8) :
    Makes Permitted w (masterServiceRuleDeny w deviceId reg value).2 := by
  unfold masterServiceRuleDeny
  split
  · exact makes_refl w
  · exact makes_of_calls rfl

theorem makes_ruleRemove (w : I2cWorld ε) (deviceId list : ℕ) (reg value : UInt8) :
    Makes Permitted w (masterServiceRuleRemove w deviceId list reg value).2 := by
  unfold masterServiceRuleRemove
  split
  · exact makes_refl w
  · split
    · exact makes_refl w
    · exact makes_editPolicy w _

theorem world_setTarget (h : I2cHost ε) (deviceId : ℕ) :
    (slaveServiceSetTarget h deviceId).2.world = h.world := by
  unfold slaveServiceSetTarget
  split
  · rfl
  · split
    · rfl
    · rfl

theorem world_endTransaction (h : I2cHost ε) : (slaveServiceEndTransaction h).world = h.world := by
  unfold slaveServiceEndTransaction
  split
  · rfl
  · rfl

end

end Bvstk.I2c
