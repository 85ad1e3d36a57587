import Bvstk.I2c.ServiceEffect
import Bvstk.Library.Machine

/-! # The I2C policy is never bypassed

Whatever is asked of the services and whatever the bus answers, a register write goes
out only if the device table and the policy allow it at that moment; what is refused
leaves no trace on the bus or in the cache.
-/
namespace Bvstk.I2c
open Config Events CallLog Machine
variable {ε : Type}

/-! ## The services as one machine -/

inductive I2cOp where
  | write (deviceId : ℕ) (reg value : UInt8) (source : EventSource) (timeoutMs : ℕ)
  | read (deviceId : ℕ) (reg : UInt8) (source : EventSource) (timeoutMs : ℕ)
  | cacheWrite (deviceId : ℕ) (reg value : UInt8)
  | cacheSeed (deviceId : ℕ) (reg value : UInt8)
  | cacheInvalidate (deviceId : ℕ) (reg : UInt8)
  | setPolicy (deviceId mode : ℕ)
  | ruleAllow (deviceId : ℕ) (reg value : UInt8)
  | ruleDeny (deviceId : ℕ) (reg value : UInt8)
  | ruleClear (deviceId : ℕ) (reg value : UInt8)
  | ruleRemove (deviceId list : ℕ) (reg value : UInt8)
  | ruleClearList (deviceId list : ℕ)
  | setConfig (deviceId : ℕ) (config : I2cDeviceConfig)
  | frame (frame : List UInt8) (readPhase : Bool) (capacity timeoutMs : ℕ)
  | setTarget (deviceId : ℕ)
  | endTransaction

/-- The status and the bytes an operation returns. -/
abbrev I2cAnswer := Status × List UInt8

/-- An operation of the master service, on behalf of the host or anyone else. -/
def I2cHost.master (h : I2cHost ε) (out : Status × I2cWorld ε) : I2cHost ε × I2cAnswer :=
  ({ h with world := out.2 },(out.1,[]))

def I2cHost.step (P : I2cPlatform ε) (h : I2cHost ε) : I2cOp → I2cHost ε × I2cAnswer
  | .write deviceId reg value source timeoutMs =>
    h.master (masterServiceWrite P h.world deviceId reg value source timeoutMs)
  | .read deviceId reg source timeoutMs =>
    let out := masterServiceReadFrom P h.world deviceId reg source timeoutMs
    ({ h with world := out.2 },(out.1.1,[out.1.2]))
  | .cacheWrite deviceId reg value => h.master (cacheWrite P h.world deviceId reg value)
  | .cacheSeed deviceId reg value => h.master (cacheSeed P h.world deviceId reg value)
  | .cacheInvalidate deviceId reg => h.master (cacheInvalidate h.world deviceId reg)
  | .setPolicy deviceId mode => h.master (masterServiceSetPolicy h.world deviceId mode)
  | .ruleAllow deviceId reg value => h.master (masterServiceRuleAllow h.world deviceId reg value)
  | .ruleDeny deviceId reg value => h.master (masterServiceRuleDeny h.world deviceId reg value)
  | .ruleClear deviceId reg value => h.master (masterServiceRuleClear h.world deviceId reg value)
  | .ruleRemove deviceId list reg value => h.master (masterServiceRuleRemove h.world deviceId list reg value)
  | .ruleClearList deviceId list => h.master (masterServiceRuleClearList h.world deviceId list)
  | .setConfig deviceId config => h.master (masterServiceSetConfig h.world deviceId config)
  | .frame frame readPhase capacity timeoutMs =>
    let out := slaveServiceHandleFrame P h frame readPhase capacity timeoutMs
    (out.2,out.1)
  | .setTarget deviceId =>
    let out := slaveServiceSetTarget h deviceId
    (out.2,(out.1,[]))
  | .endTransaction => (slaveServiceEndTransaction h,(.ok,[]))

section
variable (P : I2cPlatform ε)

/-- No operation makes a register write that is not allowed when it goes out. -/
theorem makes_step (h : I2cHost ε) (op : I2cOp) : Makes Permitted h.world (h.step P op).1.world := by
  cases op with
  | write deviceId reg value source timeoutMs =>
    exact (write_effect P h.world deviceId reg value source timeoutMs).makes
  | read deviceId reg source timeoutMs => exact makes_readFrom P h.world deviceId reg source timeoutMs
  | cacheWrite deviceId reg value => exact (forwards_cacheWrite P h.world deviceId reg value).makes
  | cacheSeed deviceId reg value => exact (forwards_cacheSeed P h.world deviceId reg value).makes
  | cacheInvalidate deviceId reg => exact (forwards_cacheInvalidate h.world deviceId reg).makes
  | setPolicy deviceId mode => exact makes_editPolicy h.world _
  | ruleAllow deviceId reg value => exact makes_ruleAllow h.world deviceId reg value
  | ruleDeny deviceId reg value => exact makes_ruleDeny h.world deviceId reg value
  | ruleClear deviceId reg value => exact makes_editPolicy h.world _
  | ruleRemove deviceId list reg value => exact makes_ruleRemove h.world deviceId list reg value
  | ruleClearList deviceId list => exact makes_editPolicy h.world _
  | setConfig deviceId config => exact makes_setConfig h.world deviceId config
  | frame frame readPhase capacity timeoutMs => exact makes_frame P h frame readPhase capacity timeoutMs
  | setTarget deviceId => exact makes_of_calls (congrArg World.calls (world_setTarget h deviceId))
  | endTransaction => exact makes_of_calls (congrArg World.calls (world_endTransaction h))

/-- The services as the board starts them, with nothing called yet. -/
def I2cHost.start (slave : SlaveService) (s : I2cState) (env : ε) : I2cHost ε := ⟨slave,⟨s,env,[]⟩⟩

theorem permitted_run (slave : SlaveService) (s : I2cState) (env : ε) (ops : List I2cOp) :
    ∀ p ∈ (final (I2cHost.step P) (I2cHost.start slave s env) ops).world.calls, Permitted p.1 p.2 :=
  final_invariant (P := fun h : I2cHost ε => ∀ p ∈ h.world.calls, Permitted p.1 p.2)
    (fun h op hcalls => (makes_step P h op).all hcalls) (fun _ hp => absurd hp List.not_mem_nil) ops

end

/-! ## Refused bytes -/

theorem mem_writesFrom {addr : UInt8} {reg : ℕ} {data : List UInt8} {b : BusWrite}
    (h : b ∈ writesFrom addr reg data) : ∃ j < data.length, b.2.1 = UInt8.ofNat (reg + j) := by
  induction data generalizing reg with
  | nil => exact absurd h List.not_mem_nil
  | cons value data ih =>
    rcases List.mem_cons.mp h with rfl | h
    · exact ⟨0,Nat.succ_pos _,rfl⟩
    · obtain ⟨j,hj,hreg⟩ := ih h
      refine ⟨j + 1,Nat.succ_lt_succ hj,?_⟩
      rw [hreg, Nat.add_right_comm, Nat.add_assoc]

theorem ofNat_ne {m n : ℕ} (hm : m < 256) (hn : n < 256) (h : m ≠ n) : UInt8.ofNat m ≠ UInt8.ofNat n := by
  intro heq
  have hnat := congrArg UInt8.toNat heq
  rw [UInt8.toNat_ofNat_of_lt' hm, UInt8.toNat_ofNat_of_lt' hn] at hnat
  exact h hnat

/-- The register of a refused byte is neither written nor cached during the frame. -/
theorem FrameEffect.refused_byte {h : I2cHost ε} {reg : UInt8} {data : List UInt8} {w' : I2cWorld ε}
    (heffect : FrameEffect h (reg :: data) w') {j : ℕ} {value : UInt8} (hvalue : data[j]? = some value)
    (hreg : reg.toNat + j < 256)
    (hrefused : ∀ device, ¬h.world.state.Allows h.slave.targetDevice device (UInt8.ofNat (reg.toNat + j)) value) :
    ∃ new, w'.calls = h.world.calls ++ new ∧
      (∀ b ∈ busWrites new, b.2.1 ≠ UInt8.ofNat (reg.toNat + j)) ∧
      w'.state.cache.entries h.slave.targetDevice (UInt8.ofNat (reg.toNat + j)) =
        h.world.state.cache.entries h.slave.targetDevice (UInt8.ofNat (reg.toNat + j)) := by
  cases heffect with
  | ignored hwhy hquiet =>
    obtain ⟨new,hnew,hwrites,-⟩ := hquiet.calls
    exact ⟨new,hnew,fun b hb => by simp [hwrites] at hb,hquiet.cache _ _ id⟩
  | @forwarded device _ _ n _ hknown hfirst =>
    have hcount : device.regCount ≤ 256 := (h.world.state.devices.valid device (List.mem_of_getElem? hknown)).2.2.2
    have hnj : n ≤ j := by
      by_contra hlt
      exact hrefused device (hfirst.allowed j value (Nat.not_le.mp hlt) hvalue)
    -- the registers of a frame are pairwise different
    have hother : ∀ i, i < n → UInt8.ofNat (reg.toNat + i) ≠ UInt8.ofNat (reg.toNat + j) := by
      intro i hi
      have hinside := hfirst.inside i hi
      exact ofNat_ne (by omega) hreg (by omega)
    obtain ⟨new,hnew,hwrites,-⟩ := hfirst.effect.calls
    refine ⟨new,hnew,?_,hfirst.effect.cache _ _ ?_⟩
    · intro b hb
      rw [hwrites] at hb
      obtain ⟨i,hi,hb⟩ := mem_writesFrom hb
      rw [hb]
      exact hother i (Nat.lt_of_lt_of_le hi (List.length_take_le ..))
    · rintro ⟨-,i,hi,heq⟩
      exact hother i hi heq.symm

theorem busWrites_of_publishes {w w' : I2cWorld ε} (h : Makes IsPublish w w') :
    busWrites w'.calls = busWrites w.calls := by
  obtain ⟨new,hnew,hpublish⟩ := h
  rw [hnew, busWrites, List.filterMap_append]
  exact (congrArg _ (busWrites_eq_nil hpublish)).trans (List.append_nil _)

/-- In every run each register write goes to a known device that has the register, with a
value its policy permits at that moment; a refused write, alone or in a frame, reaches
neither the bus nor the cache. -/
theorem i2c_policy_never_bypassed (P : I2cPlatform ε) (slave : SlaveService) (s : I2cState) (env : ε)
    (ops : List I2cOp) :
    let h := final (I2cHost.step P) (I2cHost.start slave s env) ops
    (∀ s' addr reg value status, (s',I2cCall.writeReg addr reg value status) ∈ h.world.calls →
      ∃ deviceId device, s'.Allows deviceId device reg value ∧ device.addr7b = addr) ∧
    (∀ deviceId reg value source timeoutMs, (∀ device, ¬h.world.state.Allows deviceId device reg value) →
      let out := masterServiceWrite P h.world deviceId reg value source timeoutMs
      out.1 ≠ .ok ∧ out.2.state = h.world.state ∧ busWrites out.2.calls = busWrites h.world.calls) ∧
    ∀ reg data capacity timeoutMs,
      let w' := (slaveServiceHandleFrame P h (reg :: data) false capacity timeoutMs).2.world
      FrameEffect h (reg :: data) w' ∧
      ∀ j value, data[j]? = some value → reg.toNat + j < 256 →
        (∀ device, ¬h.world.state.Allows h.slave.targetDevice device (UInt8.ofNat (reg.toNat + j)) value) →
        ∃ new, w'.calls = h.world.calls ++ new ∧
          (∀ b ∈ busWrites new, b.2.1 ≠ UInt8.ofNat (reg.toNat + j)) ∧
          w'.state.cache.entries h.slave.targetDevice (UInt8.ofNat (reg.toNat + j)) =
            h.world.state.cache.entries h.slave.targetDevice (UInt8.ofNat (reg.toNat + j)) := by
  intro h
  constructor
  · intro s' addr reg value status hmem
    exact permitted_run P slave s env ops _ hmem
  constructor
  · intro deviceId reg value source timeoutMs hrefused
    have heffect := write_effect P h.world deviceId reg value source timeoutMs
    dsimp only
    generalize masterServiceWrite P h.world deviceId reg value source timeoutMs = out at heffect ⊢
    cases heffect with
    | refused hstatus hno hstate hcalls => exact ⟨hstatus,hstate,busWrites_of_publishes hcalls⟩
    | forwarded hallows _ => exact absurd hallows (hrefused _)
  · intro reg data capacity timeoutMs
    have heffect := frame_effect P h (reg :: data) capacity timeoutMs
    exact ⟨heffect,fun j value hvalue hreg hrefused => heffect.refused_byte hvalue hreg hrefused⟩

end Bvstk.I2c
