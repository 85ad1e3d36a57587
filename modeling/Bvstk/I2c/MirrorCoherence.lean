import Bvstk.Cache.RegistryStructure
import Bvstk.I2c.Bridge
import Bvstk.I2c.PolicySafety

/-! # The registry mirrors the I2C service

Every change of a register or of the presence is reported as it is made. A new
configuration is another matter: the bridge may not be able to redefine the device, and
nobody is told. The registry follows the service in every run in which this does not
happen.
-/
namespace Bvstk.I2c
open Config Events Cache CallLog Machine
variable {ε : Type}

/-! ## Steps of the service -/

/-- A call on which the bridge does nothing. -/
def I2cCall.Unseen : I2cCall → Prop
  | .entry .. => False
  | .presence .. => False
  | .configChanged .. => False
  | _ => True

/-- From `w` to `w'` nothing changed that the bridge exports, and nothing was reported. -/
structure Silent (w w' : I2cWorld ε) : Prop where
  devices : w'.state.devices = w.state.devices
  cache : w'.state.cache = w.state.cache
  presence : w'.state.presence = w.state.presence
  calls : Makes (fun _ c => c.Unseen) w w'

section
variable {w w' w'' : I2cWorld ε}

theorem silent_refl (w : I2cWorld ε) : Silent w w := ⟨rfl,rfl,rfl,makes_refl w⟩

theorem Silent.trans (h : Silent w w') (h' : Silent w' w'') : Silent w w'' :=
  ⟨h'.devices.trans h.devices,h'.cache.trans h.cache,h'.presence.trans h.presence,h.calls.trans h'.calls⟩

/-- The environment and the parts of the state that are not exported. -/
theorem silent_of_eq (hdevices : w'.state.devices = w.state.devices) (hcache : w'.state.cache = w.state.cache)
    (hpresence : w'.state.presence = w.state.presence) (hcalls : w'.calls = w.calls) : Silent w w' :=
  ⟨hdevices,hcache,hpresence,makes_of_calls hcalls⟩

theorem silent_call {c : I2cCall} (hc : c.Unseen) (hstate : w'.state = w.state) (hcalls : w'.calls = w.calls) :
    Silent w (w'.call c) := by
  refine ⟨?_,?_,?_,(makes_of_calls hcalls).trans (makes_call hc)⟩
  · rw [call_state, hstate]
  · rw [call_state, hstate]
  · rw [call_state, hstate]

variable (P : I2cPlatform ε)

theorem silent_emitFlags (w : I2cWorld ε) (type : EventType) (status : Status) (source : EventSource) (op : EventOp)
    (device : I2cDevice) (reg : ℕ) (value : UInt8) (flags : ℕ) :
    Silent w (emitFlags P w type status source op device reg value flags) := silent_call trivial rfl rfl

theorem silent_emit (w : I2cWorld ε) (type : EventType) (status : Status) (source : EventSource) (op : EventOp)
    (device : I2cDevice) (reg : ℕ) (value : UInt8) : Silent w (emit P w type status source op device reg value) :=
  silent_emitFlags P w type status source op device reg value eventFlagNone

theorem silent_backendRead (w : I2cWorld ε) (device : I2cDevice) (reg : UInt8) (timeoutMs : ℕ) :
    Silent w (backendRead P w device reg timeoutMs).2 := silent_call trivial rfl rfl

theorem silent_backendWrite (w : I2cWorld ε) (device : I2cDevice) (reg value : UInt8) (timeoutMs : ℕ) :
    Silent w (backendWrite P w device reg value timeoutMs).2 := silent_call trivial rfl rfl

theorem silent_observe (w : I2cWorld ε) (deviceId : ℕ) (type : EventType) (op : EventOp) (reg : ℕ) (value : UInt8)
    (status : Status) : Silent w (masterServiceObserve P w deviceId type op reg value status) := by
  unfold masterServiceObserve
  split
  · exact silent_refl w
  · exact silent_emitFlags P w _ _ _ _ _ _ _ _

theorem silent_observeCaptures (target : ℕ) (data : List UInt8) (reg : ℕ) (w : I2cWorld ε) :
    Silent w (observeCaptures P target reg data w) := by
  induction data generalizing reg w with
  | nil => exact silent_refl w
  | cons value data ih => exact (silent_observe P w _ _ _ _ _ _).trans (ih _ _)

theorem silent_observeReplies (target : ℕ) (window : List UInt8) (reg : ℕ) (w : I2cWorld ε) :
    Silent w (observeReplies P target reg window w) := by
  induction window generalizing reg w with
  | nil => exact silent_refl w
  | cons value window ih => exact (silent_observe P w _ _ _ _ _ _).trans (ih _ _)

theorem silent_auditTail (target : ℕ) (status : Status) (data : List UInt8) (reg : ℕ) (w : I2cWorld ε) :
    Silent w (auditTail P target status reg data w) := by
  induction data generalizing reg w with
  | nil => exact silent_refl w
  | cons value data ih =>
    have hattempt := silent_observe P w target .regAttempt .write reg value .ok
    have hfault := silent_observe P (masterServiceObserve P w target .regAttempt .write reg value .ok)
      target .fault .write reg value status
    exact (hattempt.trans hfault).trans (ih _ _)

theorem silent_setPolicy (w : I2cWorld ε) (out : Status × I2cPolicy)
    (h : out.2.items.length = w.state.policy.items.length) : Silent w (setPolicy w out h).2 :=
  silent_of_eq rfl rfl rfl rfl

end

/-! ## Coherence -/

/-- The registry shows the service in the world `w`, but for the exceptions. -/
def CoherentBut (now : ℕ → UInt64) (b : Bridge) (ids : ℕ → ℕ → Cache.Name) (stale : ℕ → ℕ → Prop) (doubt : ℕ → Prop)
    (w : I2cWorld ε) : Prop := Mirrors ids stale doubt w.state (bridgeAt now b w)

abbrev Coherent (now : ℕ → UInt64) (b : Bridge) (ids : ℕ → ℕ → Cache.Name) (w : I2cWorld ε) : Prop :=
  CoherentBut now b ids Fresh Sure w

section
variable {now : ℕ → UInt64} {b : Bridge} {ids : ℕ → ℕ → Cache.Name} {stale : ℕ → ℕ → Prop} {doubt : ℕ → Prop}
  {w w' : I2cWorld ε}

theorem bridgeAt_call (w : I2cWorld ε) (c : I2cCall) :
    bridgeAt now b (w.call c) = observe now (bridgeAt now b w) (w.state,c) := by
  rw [bridgeAt, World.call, List.foldl_append]
  rfl

theorem bridgeAt_silent (h : Silent w w') : bridgeAt now b w' = bridgeAt now b w := by
  obtain ⟨new,hnew,hunseen⟩ := h.calls
  have hsame : ∀ calls : List (I2cState × I2cCall), (∀ p ∈ calls, p.2.Unseen) → ∀ b, calls.foldl (observe now) b = b := by
    intro calls
    induction calls with
    | nil => exact fun _ _ => rfl
    | cons p calls ih =>
      intro hcalls b
      obtain ⟨s,c⟩ := p
      have hp := hcalls _ List.mem_cons_self
      have hone : observe now b (s,c) = b := by
        cases c with
        | entry d r e => exact absurd hp not_false
        | presence d p => exact absurd hp not_false
        | configChanged d config => exact absurd hp not_false
        | _ => rfl
      rw [List.foldl_cons, hone]
      exact ih (fun q hq => hcalls q (List.mem_cons_of_mem _ hq)) b
  rw [bridgeAt, hnew, List.foldl_append]
  exact hsame new hunseen _

theorem CoherentBut.silent (h : CoherentBut now b ids stale doubt w) (hsilent : Silent w w') :
    CoherentBut now b ids stale doubt w' := by
  unfold CoherentBut
  rw [bridgeAt_silent hsilent]
  refine Mirrors.congr h (congrArg I2cDevices.count hsilent.devices) (fun d => ?_) (fun d item _ i _ _ => ?_) fun d _ => by
    rw [hsilent.presence]
  · rw [I2cState.catalog, I2cState.catalog, hsilent.devices]
  · rw [I2cState.samples, I2cState.samples, hsilent.cache]

/-! ## Registers and presence -/

/-- Rewriting an entry and reporting it, with a report that shows what was written. -/
theorem coherent_setEntry (h : CoherentBut now b ids stale doubt w) {env : ε} (d : ℕ) (r : UInt8)
    (e e' : RegisterEntry)
    (he : ∀ k : Catalog, normalize (k.entry r.toNat e'.sample) = normalize (k.entry r.toNat e.sample)) :
    CoherentBut now b ids stale doubt
      (World.call { state := w.state.setEntry d r e, env := env, calls := w.calls } (.entry d r e')) := by
  have hmore : CoherentBut now b ids (fun d' i => stale d' i ∨ d' = d ∧ i = r.toNat) doubt w :=
    h.mono (fun _ _ _ _ _ => Or.inl) fun _ hd => hd
  have hset : Mirrors ids (fun d' i => stale d' i ∨ d' = d ∧ i = r.toNat) doubt (w.state.setEntry d r e)
      (bridgeAt now b w) := by
    refine hmore.congr rfl (fun _ => rfl) ?_ fun _ _ => rfl
    intro d' item hknown i hi hcurrent
    have hsmall : item.regCount ≤ 256 := (w.state.devices.valid item (List.mem_of_getElem? hknown)).2.2.2
    change RegisterEntry.sample (Function.update w.state.cache.entries d _ d' _) = (w.state.cache.entries d' _).sample
    by_cases hd : d' = d
    · subst hd
      have hne : UInt8.ofNat i ≠ r := by
        rintro rfl
        exact hcurrent (Or.inr ⟨rfl,(UInt8.toNat_ofNat_of_lt' (Nat.lt_of_lt_of_le hi hsmall)).symm⟩)
      rw [Function.update_self, Function.update_of_ne hne]
    · rw [Function.update_of_ne hd]
  have hsample : (w.state.setEntry d r e).samples d r.toNat = e.sample := by
    change RegisterEntry.sample (Function.update w.state.cache.entries d _ d _) = e.sample
    rw [Function.update_self, UInt8.ofNat_toNat, Function.update_self]
  unfold CoherentBut
  rw [bridgeAt_call]
  exact mirrors_entry now hset fun k => hsample ▸ he k

variable (P : I2cPlatform ε)

theorem coherent_cacheWrite (h : CoherentBut now b ids stale doubt w) (d : ℕ) (r value : UInt8) :
    CoherentBut now b ids stale doubt (cacheWrite P w d r value).2 := by
  unfold cacheWrite
  split
  · exact h
  · exact coherent_setEntry h d r _ _ fun _ => rfl

theorem coherent_cacheSeed (h : CoherentBut now b ids stale doubt w) (d : ℕ) (r value : UInt8) :
    CoherentBut now b ids stale doubt (cacheSeed P w d r value).2 := by
  unfold cacheSeed
  split
  · exact h
  · exact coherent_setEntry h d r _ _ fun _ => rfl

/-- An entry that is not valid is exported as zero, whatever is left in memory. -/
theorem coherent_cacheInvalidate (h : CoherentBut now b ids stale doubt w) (d : ℕ) (r : UInt8) :
    CoherentBut now b ids stale doubt (cacheInvalidate w d r).2 := by
  unfold cacheInvalidate
  split
  · exact h
  · exact coherent_setEntry h d r _ _ fun _ => rfl

theorem coherent_invalidateFrom (d left r : ℕ) (h : CoherentBut now b ids stale doubt w) :
    CoherentBut now b ids stale doubt (invalidateFrom d left r w) := by
  induction left generalizing r w with
  | zero => exact h
  | succ left ih => exact ih (r + 1) (coherent_cacheInvalidate h d (UInt8.ofNat r))

theorem coherent_cacheResponse (h : CoherentBut now b ids stale doubt w) (d : ℕ) (target : I2cDevice)
    (r value : UInt8) (status : Status) :
    CoherentBut now b ids stale doubt (cacheResponse P w d target r value status) := by
  unfold cacheResponse
  split
  · exact h
  · split
    · split
      · exact coherent_cacheWrite P h d r value
      · exact coherent_cacheInvalidate h d r
    · exact h

theorem coherent_recordResponse (h : Coherent now b ids w) (d : ℕ) (address : UInt8) (status : Status) (read : Bool) :
    Coherent now b ids (recordResponse w d address status read) := by
  unfold recordResponse
  cases hget : devicesGet w.state.devices d with
  | error status => exact h
  | ok current =>
    dsimp only
    split
    · exact h
    · generalize presenceAfter (w.state.presence d) status read = p
      have hdoubt : Mirrors ids Fresh (fun d' => d' = d) (w.state.setPresence d p) (bridgeAt now b w) := by
        have hmore : CoherentBut now b ids Fresh (fun d' => d' = d) w :=
          h.mono (fun _ _ _ _ _ hs => hs) fun _ hd => absurd hd not_false
        refine hmore.congr rfl (fun _ => rfl) (fun _ _ _ _ _ _ => rfl) fun d' hd' => ?_
        exact Function.update_of_ne hd' ..
      have hpresent : p.code = ((w.state.setPresence d p).presence d).code := by
        change p.code = (Function.update w.state.presence d p d).code
        rw [Function.update_self]
      have hset := Bridge.Mirrors.presence now hdoubt (lt_count (devicesGet_eq_ok hget)) (code_le p) hpresent
      unfold Coherent CoherentBut
      rw [bridgeAt_call]
      exact Bridge.Mirrors.mono hset (fun _ _ _ _ hs => hs) fun d' hd' => absurd hd'.1 hd'.2

/-! ## Reads and writes -/

theorem coherent_readFrom (h : Coherent now b ids w) (d : ℕ) (r : UInt8) (source : EventSource) (timeoutMs : ℕ) :
    Coherent now b ids (masterServiceReadFrom P w d r source timeoutMs).2 := by
  unfold masterServiceReadFrom
  split
  · exact h
  · rename_i device hdevice
    split
    · exact h
    · dsimp only
      have hbus := silent_backendRead P w device r timeoutMs
      generalize backendRead P w device r timeoutMs = out at hbus ⊢
      obtain ⟨⟨status,value⟩,w₁⟩ := out
      dsimp only at hbus ⊢
      have hrecord := coherent_recordResponse (h.silent hbus) d device.addr7b status true
      have hemit := hrecord.silent (silent_emitFlags P _ .masterRead status source .read device r.toNat
        (if status = .ok then value else 0) (confirmedFlag (presenceConfirmed w.state d) status))
      exact coherent_cacheResponse P hemit d device r _ status

theorem coherent_forwardWrite (h : Coherent now b ids w) (d : ℕ) (device : I2cDevice) (r value : UInt8)
    (source : EventSource) (wasPresent : Bool) (timeoutMs : ℕ) :
    Coherent now b ids (forwardWrite P w d device r value source wasPresent timeoutMs).2 := by
  have hbus := silent_backendWrite P w device r value timeoutMs
  unfold forwardWrite
  generalize backendWrite P w device r value timeoutMs = out at hbus ⊢
  obtain ⟨status,w₁⟩ := out
  dsimp only at hbus ⊢
  have hrecord := coherent_recordResponse (h.silent hbus) d device.addr7b status false
  have hsent := hrecord.silent (silent_emitFlags P _ .masterWrite status source .write device r.toNat value
    (confirmedFlag wasPresent status))
  generalize emitFlags P _ .masterWrite status source .write device r.toNat value
    (confirmedFlag wasPresent status) = w₂ at hsent ⊢
  split
  · have hfault := hsent.silent (silent_emit P w₂ .fault status source .write device r.toNat value)
    exact coherent_cacheResponse P hfault d device r 0 status
  · have hcached := coherent_cacheResponse P hsent d device r value .ok
    exact hcached.silent (silent_emit P _ .regCommit .ok source .write device r.toNat value)

theorem coherent_write (h : Coherent now b ids w) (d : ℕ) (r value : UInt8) (source : EventSource) (timeoutMs : ℕ) :
    Coherent now b ids (masterServiceWrite P w d r value source timeoutMs).2 := by
  unfold masterServiceWrite
  split
  · exact h
  · rename_i device hdevice
    dsimp only
    have hattempt := h.silent (silent_emit P w .regAttempt .ok source .write device r.toNat value)
    split
    · exact hattempt.silent (silent_emit P _ .fault .range source .write device r.toNat value)
    · split
      · exact hattempt.silent (silent_emit P _ .regDenied .denied source .write device r.toNat value)
      · exact coherent_forwardWrite P hattempt d device r value source _ timeoutMs

/-! ## Frames -/

theorem coherent_loadWindow (h : Coherent now b ids w) (d : ℕ) (r : UInt8) (capacity timeoutMs : ℕ) :
    Coherent now b ids (loadWindow P w d r capacity timeoutMs).2 := by
  have hread := coherent_readFrom P h d r .host timeoutMs
  unfold loadWindow
  split
  · exact h
  · split
    · exact h
    · split
      · exact h
      · dsimp only
        split
        · exact hread
        · exact hread

theorem coherent_forwardBytes (target regCount timeoutMs : ℕ) (data : List UInt8) (r : ℕ) (h : Coherent now b ids w) :
    Coherent now b ids (forwardBytes P target regCount timeoutMs r data w).2 := by
  induction data generalizing r w with
  | nil => exact h
  | cons value data ih =>
    unfold forwardBytes
    split
    · exact h.silent (silent_auditTail P target .range (value :: data) r w)
    · dsimp only
      have hwrite := coherent_write P h target (UInt8.ofNat r) value .host timeoutMs
      split
      · exact hwrite.silent (silent_auditTail P target .notReady data (r + 1) _)
      · exact ih (r + 1) hwrite

theorem coherent_readPhase {h : I2cHost ε} (hw : Coherent now b ids h.world) (device : I2cDevice)
    (capacity timeoutMs : ℕ) : Coherent now b ids (handleReadPhase P h device capacity timeoutMs).2.world := by
  unfold handleReadPhase
  dsimp only
  have hseen := hw.silent (silent_observe P h.world h.slave.targetDevice .slaveReadRequest .read
    (h.slave.registerPointer h.slave.targetDevice).toNat 0 .ok)
  split
  · exact hseen
  · generalize (if device.regCount ≤ (h.slave.registerPointer h.slave.targetDevice).toNat then 0
      else (h.slave.registerPointer h.slave.targetDevice).toNat) = r
    have hload := coherent_loadWindow P hseen h.slave.targetDevice (UInt8.ofNat r) capacity timeoutMs
    split
    · exact hload
    · exact hload.silent (silent_observeReplies P _ _ _ _)

theorem coherent_writePhase {h : I2cHost ε} (hw : Coherent now b ids h.world) (device : I2cDevice)
    (frame : List UInt8) (timeoutMs : ℕ) : Coherent now b ids (handleWritePhase P h device frame timeoutMs).2.world := by
  unfold handleWritePhase
  cases frame with
  | nil => exact hw
  | cons reg data =>
    dsimp only
    have hpointer := silent_observe P h.world h.slave.targetDevice .slavePointer .write reg.toNat reg .ok
    have hseen := hw.silent (hpointer.trans (silent_observeCaptures P h.slave.targetDevice data reg.toNat _))
    split
    · exact hseen.silent (silent_auditTail P h.slave.targetDevice .range data reg.toNat _)
    · exact coherent_forwardBytes P h.slave.targetDevice device.regCount timeoutMs data reg.toNat hseen

theorem coherent_frame {h : I2cHost ε} (hw : Coherent now b ids h.world) (frame : List UInt8) (readPhase : Bool)
    (capacity timeoutMs : ℕ) :
    Coherent now b ids (slaveServiceHandleFrame P h frame readPhase capacity timeoutMs).2.world := by
  unfold slaveServiceHandleFrame
  split
  · exact hw
  · split
    · exact coherent_readPhase P hw _ capacity timeoutMs
    · exact coherent_writePhase P hw _ frame timeoutMs

/-! ## Configurations -/

/-- Nothing of the device changes that the registry shows. -/
def Unmoved (s : I2cState) (d : ℕ) (config : I2cDeviceConfig) : Prop :=
  ∀ previous, s.devices.items[d]? = some previous →
    (deviceOf config).name = previous.name ∧ config.regCount = previous.regCount ∧
      (previous.addr7b = config.addr7b ∨ s.presence d = .unknown)

/-- The configuration is refused at once, or the device can be redefined, or there is
nothing to redefine. -/
def Followed (b : Bridge) (s : I2cState) (d : ℕ) (config : I2cDeviceConfig) : Prop :=
  configRefused config ∨ Redefinable b d config ∨ Unmoved s d config

/-- Half way through a configuration of device `d` the other devices are shown, and `d` can
still be redefined if `r`. -/
structure HalfWay (now : ℕ → UInt64) (b : Bridge) (ids : ℕ → ℕ → Cache.Name) (d : ℕ) (config : I2cDeviceConfig)
    (r : Prop) (w : I2cWorld ε) : Prop where
  known : d < w.state.devices.count
  others : Others ids d w.state (bridgeAt now b w)
  redefinable : r → Redefinable (bridgeAt now b w) d config

section
variable {d : ℕ} {config : I2cDeviceConfig} {r : Prop}

/-- Changing what is held of the device itself. -/
theorem HalfWay.congr (h : HalfWay now b ids d config r w) (hcalls : w'.calls = w.calls)
    (hcount : w'.state.devices.count = w.state.devices.count)
    (hsame : ∀ d' ≠ d, w'.state.exports ids d' = w.state.exports ids d') : HalfWay now b ids d config r w' := by
  have hbridge : bridgeAt now b w' = bridgeAt now b w := by rw [bridgeAt, hcalls]; rfl
  refine ⟨hcount ▸ h.known,?_,?_⟩
  · rw [hbridge]
    exact h.others.congr hcount hsame
  · rw [hbridge]
    exact h.redefinable

theorem HalfWay.entry (h : HalfWay now b ids d config r w) (reg : UInt8) (e : RegisterEntry) :
    HalfWay now b ids d config r (w.call (.entry d reg e)) := by
  obtain ⟨hothers,hhandles,hnames⟩ := others_entry now h.others h.known reg e
  refine ⟨h.known,?_,fun hr => ?_⟩
  · rw [bridgeAt_call]
    exact hothers
  · obtain ⟨hpolicy,hcatalog,hfree⟩ := h.redefinable hr
    rw [bridgeAt_call]
    refine ⟨hpolicy,hcatalog,?_⟩
    change nameTaken (i2cEntry now (bridgeAt now b w) w.state d reg e).registry
      ((i2cEntry now (bridgeAt now b w) w.state d reg e).handles d) i2cSubsystem config.name = false
    rw [hhandles, hnames]
    exact hfree

theorem HalfWay.invalidateFrom (left reg : ℕ) (h : HalfWay now b ids d config r w) :
    HalfWay now b ids d config r (invalidateFrom d left reg w) := by
  induction left generalizing reg w with
  | zero => exact h
  | succ left ih =>
    refine ih (reg + 1) ?_
    unfold cacheInvalidate
    split
    · exact h
    · have hset : HalfWay now b ids d config r (w.modify fun s =>
          s.setEntry d (UInt8.ofNat reg) (s.cache.entries d (UInt8.ofNat reg)).invalid) := by
        refine h.congr rfl rfl ?_
        exact exports_congr (fun _ _ => rfl) (fun _ hne => Function.update_of_ne hne ..) fun _ _ => rfl
      exact hset.entry (UInt8.ofNat reg) RegisterEntry.zero

theorem HalfWay.dropOldDevice (h : HalfWay now b ids d config r w) (previous device : I2cDevice) :
    HalfWay now b ids d config r (dropOldDevice w d previous device) := by
  unfold I2c.dropOldDevice
  split
  · refine HalfWay.invalidateFrom _ 0 (HalfWay.congr h rfl rfl ?_)
    exact exports_congr (fun _ _ => rfl) (fun _ _ => rfl) fun _ hne => Function.update_of_ne hne ..
  · exact h

theorem halfWay_setDevice {item : I2cDevice} (hknown : d < w.state.devices.count) (hvalid : item.Valid)
    (h : Coherent now b ids w) (config : I2cDeviceConfig) :
    HalfWay now b ids d config (Redefinable (bridgeAt now b w) d config) (setDevice w d item).2 := by
  have hitems := (setDevice_ok hknown hvalid).2
  have hstart : HalfWay now b ids d config (Redefinable (bridgeAt now b w) d config) w :=
    ⟨hknown,Mirrors.others h hknown,fun hr => hr⟩
  refine hstart.congr rfl ?_ ?_
  · rw [I2cDevices.count, hitems, List.length_set]
    rfl
  · refine exports_congr (fun d' hne => ?_) (fun _ _ => rfl) fun _ _ => rfl
    rw [hitems, List.getElem?_set_ne hne.symm]

/-- A device that is not moved is shown all along. -/
theorem coherent_unmoved {previous : I2cDevice} (hknown : w.state.devices.items[d]? = some previous)
    (hvalid : (deviceOf config).Valid) (hunmoved : Unmoved w.state d config) (h : Coherent now b ids w) :
    Coherent now b ids (dropOldDevice (setDevice w d (deviceOf config)).2 d previous (deviceOf config)) := by
  have hlt := lt_count hknown
  obtain ⟨hname,hregs,haddr⟩ := hunmoved previous hknown
  have hitems := (setDevice_ok hlt hvalid).2
  have hset : Coherent now b ids (setDevice w d (deviceOf config)).2 := by
    refine Mirrors.congr h ?_ (fun d' => ?_) (fun _ _ _ _ _ _ => rfl) fun _ _ => rfl
    · rw [I2cDevices.count, hitems, List.length_set]
      rfl
    · rw [I2cState.catalog, I2cState.catalog, hitems]
      by_cases hd : d' = d
      · subst hd
        rw [List.getElem?_set_self hlt, hknown]
        have hcount : (deviceOf config).regCount = previous.regCount := hregs
        simp only [hname, hcount]
      · rw [List.getElem?_set_ne (Ne.symm hd)]
  unfold dropOldDevice
  split
  · rename_i hmoved
    have hunknown : w.state.presence d = .unknown := by
      rcases hmoved with hmoved | hmoved
      · exact haddr.resolve_left hmoved
      · exact absurd hregs.symm hmoved
    refine coherent_invalidateFrom d _ 0 (hset.silent (silent_of_eq rfl rfl ?_ rfl))
    change Function.update w.state.presence d .unknown = w.state.presence
    rw [← hunknown, Function.update_eq_self]
  · exact hset

/-- The policy is applied, and the bridge told, or not. -/
theorem coherent_applyPolicyConfig (hknown : w.state.devices.items[d]? = some (deviceOf config))
    (hhalf : HalfWay now b ids d config r w) (hfollowed : r ∨ Coherent now b ids w) :
    ∃ ids', Coherent now b ids' (applyPolicyConfig w d config).2 := by
  have hlt := lt_count hknown
  have hpolicy := silent_setPolicy w (policySetConfig w.state.policy d config) (edit_length _ _ _)
  have hstatus : policyEntryOf config ≠ none ↔ (policySetConfig w.state.policy d config).1 = .ok := by
    cases hentry : policyEntryOf config with
    | none =>
      simp only [ne_eq, not_true_eq_false, false_iff]
      exact (applyPolicyConfig_none hlt hentry).1
    | some entry =>
      simp only [ne_eq, reduceCtorEq, not_false_eq_true, true_iff]
      exact (applyPolicyConfig_some hlt hentry).1
  unfold applyPolicyConfig
  dsimp only
  have hhalf' : HalfWay now b ids d config r
      (setPolicy w (policySetConfig w.state.policy d config) (edit_length _ _ _)).2 :=
    hhalf.congr rfl rfl fun _ _ => rfl
  have hfollowed' := hfollowed.imp_right fun hc => CoherentBut.silent hc hpolicy
  have hknown' : (setPolicy w (policySetConfig w.state.policy d config)
    (edit_length _ _ _)).2.state.devices.items[d]? = some (deviceOf config) := hknown
  have hstatus' : policyEntryOf config ≠ none ↔ (setPolicy w (policySetConfig w.state.policy d config)
    (edit_length _ _ _)).1 = .ok := hstatus
  generalize setPolicy w (policySetConfig w.state.policy d config) (edit_length _ _ _) = out
    at hhalf' hfollowed' hknown' hstatus' ⊢
  split
  · by_cases hok : (configureI2c (bridgeAt now b out.2) out.2.state d config).status = .ok
    · refine ⟨Function.update ids d (resourceName config.profile),?_⟩
      unfold Coherent CoherentBut
      rw [bridgeAt_call]
      exact others_configure hhalf'.others hknown' hok
    · -- a refused definition: there was nothing to redefine
      have hcoherent := hfollowed'.resolve_left fun hr =>
        hok (others_configure_ok hhalf'.others (hhalf'.redefinable hr))
      refine ⟨ids,?_⟩
      unfold Coherent CoherentBut
      rw [bridgeAt_call]
      exact mirrors_refused hcoherent hok
  · rename_i hrefused
    refine ⟨ids,hfollowed'.resolve_left fun hr => hrefused ?_⟩
    exact hstatus'.mp (hhalf'.redefinable hr).policy

/-- A configuration that the registry can follow, or need not. -/
theorem coherent_setConfig (h : Coherent now b ids w) (hfollowed : Followed (bridgeAt now b w) w.state d config) :
    ∃ ids', Coherent now b ids' (masterServiceSetConfig w d config).2 := by
  unfold masterServiceSetConfig
  cases hget : devicesGet w.state.devices d with
  | error status => exact ⟨ids,h⟩
  | ok previous =>
    have hknown := devicesGet_eq_ok hget
    dsimp only
    split
    · exact ⟨ids,h⟩
    · rename_i hpassed
      have hvalid := deviceOf_valid hpassed
      have hlt := lt_count hknown
      obtain ⟨hok,hitems⟩ := setDevice_ok hlt hvalid
      rw [if_neg (not_not.mpr hok)]
      have hhalf := HalfWay.dropOldDevice (halfWay_setDevice hlt hvalid h config) previous (deviceOf config)
      have hdevices := (moved_dropOldDevice (w := (setDevice w d (deviceOf config)).2)
        (w.state.cacheSize.symm ▸ hlt) previous (deviceOf config)).1
      refine coherent_applyPolicyConfig ?_ hhalf ?_
      · rw [hdevices, hitems, List.getElem?_set_self hlt]
      · rcases hfollowed with hrefused | hredefinable | hunmoved
        · exact absurd hrefused hpassed
        · exact Or.inl hredefinable
        · exact Or.inr (coherent_unmoved hknown hvalid hunmoved h)

end

/-! ## Operations -/

theorem coherent_editPolicy (h : Coherent now b ids w) {c : Prop} [Decidable c] {status : Status}
    {out : Status × I2cPolicy} (hlength : out.2.items.length = w.state.policy.items.length) :
    Coherent now b ids (if c then (status,w) else setPolicy w out hlength).2 := by
  split
  · exact h
  · exact h.silent (silent_setPolicy w out hlength)

/-- What the configurations of an operation must meet for the registry to follow. -/
def I2cOp.Followed (b : Bridge) (s : I2cState) : I2cOp → Prop
  | .setConfig d config => I2c.Followed b s d config
  | _ => True

/-- An operation that can be followed leaves the registry showing the service. -/
theorem coherent_step {h : I2cHost ε} (op : I2cOp) (hw : Coherent now b ids h.world)
    (hfollowed : op.Followed (bridgeAt now b h.world) h.world.state) :
    ∃ ids', Coherent now b ids' (h.step P op).1.world := by
  cases op with
  | write d r value source timeoutMs => exact ⟨ids,coherent_write P hw d r value source timeoutMs⟩
  | read d r source timeoutMs => exact ⟨ids,coherent_readFrom P hw d r source timeoutMs⟩
  | cacheWrite d r value => exact ⟨ids,coherent_cacheWrite P hw d r value⟩
  | cacheSeed d r value => exact ⟨ids,coherent_cacheSeed P hw d r value⟩
  | cacheInvalidate d r => exact ⟨ids,coherent_cacheInvalidate hw d r⟩
  | setPolicy d mode => exact ⟨ids,coherent_editPolicy hw _⟩
  | ruleAllow d r value =>
    refine ⟨ids,?_⟩
    change Coherent now b ids (masterServiceRuleAllow h.world d r value).2
    unfold masterServiceRuleAllow
    split
    · exact hw
    · exact hw.silent (silent_setPolicy ..)
  | ruleDeny d r value =>
    refine ⟨ids,?_⟩
    change Coherent now b ids (masterServiceRuleDeny h.world d r value).2
    unfold masterServiceRuleDeny
    split
    · exact hw
    · exact hw.silent (silent_setPolicy ..)
  | ruleClear d r value => exact ⟨ids,coherent_editPolicy hw _⟩
  | ruleRemove d list r value =>
    refine ⟨ids,?_⟩
    change Coherent now b ids (masterServiceRuleRemove h.world d list r value).2
    unfold masterServiceRuleRemove
    split
    · exact hw
    · split
      · exact hw
      · exact coherent_editPolicy hw _
  | ruleClearList d list => exact ⟨ids,coherent_editPolicy hw _⟩
  | setConfig d config => exact coherent_setConfig hw hfollowed
  | frame frame readPhase capacity timeoutMs => exact ⟨ids,coherent_frame P hw frame readPhase capacity timeoutMs⟩
  | setTarget d =>
    refine ⟨ids,?_⟩
    change Coherent now b ids (slaveServiceSetTarget h d).2.world
    rw [world_setTarget]
    exact hw
  | endTransaction =>
    refine ⟨ids,?_⟩
    change Coherent now b ids (slaveServiceEndTransaction h).world
    rw [world_endTransaction]
    exact hw

/-- Every operation of the run can be followed when its turn comes. -/
def RunFollowed (now : ℕ → UInt64) (b : Bridge) : I2cHost ε → List I2cOp → Prop
  | _, [] => True
  | h, op :: ops => op.Followed (bridgeAt now b h.world) h.world.state ∧ RunFollowed now b (h.step P op).1 ops

theorem coherent_run {h : I2cHost ε} (ops : List I2cOp) (hw : Coherent now b ids h.world)
    (hfollowed : RunFollowed P now b h ops) : ∃ ids', Coherent now b ids' (final (I2cHost.step P) h ops).world := by
  induction ops generalizing h ids with
  | nil => exact ⟨ids,hw⟩
  | cons op ops ih =>
    obtain ⟨ids',hstep⟩ := coherent_step P op hw hfollowed.1
    exact ih hstep hfollowed.2

end

/-! ## The registry against the service -/

/-- The registry device of each I2C device has its name, lists its registers, each as the
service has it, and has its presence. -/
def Mirrored (b : Bridge) (s : I2cState) : Prop :=
  ∀ d item, s.devices.items[d]? = some item → ∃ dev, device b.registry (b.handles d) = some dev ∧
    dev.subsystem = i2cSubsystem ∧ dev.device = item.name ∧ dev.entries.length = item.regCount ∧
    (∀ r < item.regCount, ∃ e, dev.entries[r]? = some e ∧ e.Agrees (s.cache.entries d (UInt8.ofNat r)).sample) ∧
    dev.presence.toNat = (s.presence d).code

theorem Mirrors.mirrored {ids : ℕ → ℕ → Cache.Name} {s : I2cState} {b : Bridge} (h : Mirrors ids Fresh Sure s b) :
    Mirrored b s := by
  intro d item hknown
  obtain ⟨dev,hdev,hshown,hpresence⟩ := Bridge.Mirrors.shows h d (lt_count hknown)
  have hcatalog : (s.exports ids d).catalog = _ := catalog_of_known hknown ids
  rw [hcatalog] at hshown
  refine ⟨dev,hdev,hshown.subsystem,hshown.device,hshown.count,?_,hpresence not_false⟩
  intro r hr
  exact ⟨_,hshown.current r hr not_false,agrees_entry _ _ _⟩

/-- Once the bridge is attached, the registry shows the service after every run of
operations in which each configuration can be followed, whatever the bus and the clock
do. -/
theorem i2c_mirror_followed (P : I2cPlatform ε) (requests : List RegistryRequest) (now : ℕ → UInt64)
    (configs : List I2cDeviceConfig) (slave : SlaveService) (s : I2cState) (env : ε) (ops : List I2cOp)
    (hdevices : devicesInitFromConfig configs = .ok s.devices)
    (hattached : (attachI2c (final registryStep cacheHistoryInit requests).registry s configs).status = .ok)
    (hfollowed : RunFollowed P now (attachI2c (final registryStep cacheHistoryInit requests).registry s configs)
      (I2cHost.start slave s env) ops) :
    let w := (final (I2cHost.step P) (I2cHost.start slave s env) ops).world
    Mirrored (bridgeAt now (attachI2c (final registryStep cacheHistoryInit requests).registry s configs) w) w.state := by
  have hregistry : (final registryStep cacheHistoryInit requests).Kept :=
    final_invariant (P := CacheHistory.Kept) kept_step kept_init requests
  obtain ⟨ids,hstart⟩ := attachI2c_mirrors hregistry.wellFormed hdevices hattached
  obtain ⟨ids',hrun⟩ := coherent_run (b := attachI2c _ s configs) P ops (h := I2cHost.start slave s env) hstart hfollowed
  exact Mirrors.mirrored hrun

/-! ## A service with one device -/

/-- A device called `name` at address 0x20 with four registers and an empty whitelist. -/
def plainConfig (name : Config.Name) : I2cDeviceConfig := ⟨name,0x20,4,255,0,[],[],.zero⟩

def plainDevices : I2cDevices := ⟨[deviceOf (plainConfig [97])],by decide,by decide⟩

theorem plainPolicy_size : ([⟨.whitelist,[],[]⟩] : List I2cPolicyEntry).length = plainDevices.count := rfl

/-- The service right after `bvstk_i2c_master_service_init`. -/
def plainState : I2cState where
  devices := plainDevices
  cache := ⟨fun _ _ => RegisterEntry.zero,1⟩
  policy := ⟨[⟨.whitelist,[],[]⟩]⟩
  presence := fun _ => .unknown
  cacheSize := rfl
  policySize := plainPolicy_size

/-- Every transfer succeeds, and every register reads 7. -/
def readyPlatform : I2cPlatform Unit := ⟨fun e => (5,e),fun e _ _ _ => ((.ok,7),e),fun e _ _ _ _ => (.ok,e)⟩

theorem exportable_plain : (i2cCatalog (plainConfig [98])).Exportable := by
  have hids := resourceName_spec (by decide : metadataValidate .zero 4 = .ok)
  exact ⟨by decide,by decide,by decide,hids.1,hids.2,by decide⟩

theorem i2c_mirror_followed_one :
    let w := (final (I2cHost.step readyPlatform) (I2cHost.start ⟨0,fun _ => 0,fun _ => false⟩ plainState ())
      [.read 0 2 .internal 10,.setConfig 0 (plainConfig [98]),.write 0 1 3 .internal 10]).world
    Mirrored (bridgeAt (fun _ => 0)
      (attachI2c (final registryStep cacheHistoryInit []).registry plainState [plainConfig [97]]) w) w.state :=
  i2c_mirror_followed readyPlatform [] (fun _ => 0) [plainConfig [97]] _ plainState () _ rfl (by decide)
    ⟨trivial,Or.inr (Or.inl ⟨by decide,exportable_plain,by decide⟩),trivial,trivial⟩

/-- The device is renamed to `a b`, which no catalog entry can be called: the service
answers that all is well, and the registry keeps the old name. -/
theorem i2c_mirror_lost :
    let start := I2cHost.start ⟨0,fun _ => 0,fun _ => false⟩ plainState ()
    let b := attachI2c (final registryStep cacheHistoryInit []).registry plainState [plainConfig [97]]
    let out := start.step readyPlatform (.setConfig 0 (plainConfig [97,32,98]))
    b.status = .ok ∧ out.2.1 = .ok ∧
      ¬Mirrored (bridgeAt (fun _ => 0) b out.1.world) out.1.world.state := by
  intro start b out
  refine ⟨by decide,by decide,fun h => ?_⟩
  obtain ⟨dev,hdev,-,hname,-⟩ := h 0 (deviceOf (plainConfig [97,32,98])) rfl
  have hkept : (device (bridgeAt (fun _ => 0) b out.1.world).registry
    ((bridgeAt (fun _ => 0) b out.1.world).handles 0)).map CacheSnapshot.device = some [97] := by decide
  rw [hdev, Option.map_some, hname] at hkept
  exact absurd hkept (by decide)

end Bvstk.I2c
