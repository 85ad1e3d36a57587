import Bvstk.I2c.ServiceEffect
import Bvstk.Library.Audit

/-! # The audit of slave frames

Each data byte of a write frame is captured once, attempted once and has one outcome, in
the order of the bytes; what goes out is a prefix of the frame that ends at the first byte
that is refused or fails.
-/
namespace Bvstk.I2c
open Config Events CallLog Audit
variable {ε : Type}

/-! ## What is seen -/

/-- A register write of a frame. The register is a number: a frame may run past the end
of the register file. -/
structure I2cWrite where
  addr : ℕ
  reg : ℕ
  value : ℕ
  deriving DecidableEq, Repr

/-- How an event of each type shows. -/
def typeMark (x : I2cWrite) : EventType → Option (Mark I2cWrite)
  | .captureWrite => some (.captured x)
  | .regAttempt => some (.attempt x)
  | .regCommit => some (.outcome .commit x)
  | .regDenied => some (.outcome .denied x)
  | .fault => some (.outcome .fault x)
  | _ => none

/-- The types that show. -/
def markedTypes : List EventType := [.captureWrite,.regAttempt,.regCommit,.regDenied,.fault]

def eventMark (e : Event) : Option (Mark I2cWrite) :=
  (markedTypes.find? fun t => t.code == e.type).bind (typeMark ⟨e.arg0,e.arg1,e.arg2⟩)

theorem eventMark_eq {e : Event} {type : EventType} (h : e.type = type.code) :
    eventMark e = typeMark ⟨e.arg0,e.arg1,e.arg2⟩ type := by
  unfold eventMark
  rw [h]
  cases type <;> rfl

def I2cCall.mark : I2cCall → Option (Mark I2cWrite)
  | .writeReg addr reg value _ => some (.forward ⟨addr.toNat,reg.toNat,value.toNat⟩)
  | .publish e => eventMark e
  | _ => none

/-- The data bytes of a frame as writes from register `reg` on. -/
def bytesFrom (addr : UInt8) : ℕ → List UInt8 → List I2cWrite
  | _, [] => []
  | reg, value :: data => ⟨addr.toNat,reg,value.toNat⟩ :: bytesFrom addr (reg + 1) data

/-- From `w` to `w'` devices and policy stayed, and exactly `marks` were seen. -/
structure Shows (marks : List (Mark I2cWrite)) (w w' : I2cWorld ε) : Prop where
  devices : w'.state.devices = w.state.devices
  policy : w'.state.policy = w.state.policy
  log : Logs (fun _ _ => True) I2cCall.mark marks w w'

section
variable {marks marks' : List (Mark I2cWrite)} {w w' w'' : I2cWorld ε}

theorem shows_refl (w : I2cWorld ε) : Shows [] w w := ⟨rfl,rfl,logs_refl w⟩

theorem Shows.trans (h : Shows marks w w') (h' : Shows marks' w' w'') : Shows (marks ++ marks') w w'' :=
  ⟨h'.devices.trans h.devices,h'.policy.trans h.policy,h.log.trans h'.log⟩

theorem Shows.before (h : Shows marks w w') (h' : Shows [] w' w'') : Shows marks w w'' :=
  ⟨h'.devices.trans h.devices,h'.policy.trans h.policy,h.log.before h'.log⟩

theorem shows_call {c : I2cCall} (hdevices : w'.state.devices = w.state.devices)
    (hpolicy : w'.state.policy = w.state.policy) (hcalls : w'.calls = w.calls) (hmarks : c.mark.toList = marks) :
    Shows marks w (w'.call c) := by
  rw [← hmarks]
  exact ⟨hdevices,hpolicy,Logs.after (logs_of_calls hcalls) (logs_call trivial)⟩

theorem Shows.allows (h : Shows marks w w') {deviceId : ℕ} {device : I2cDevice} {reg value : UInt8} :
    w'.state.Allows deviceId device reg value ↔ w.state.Allows deviceId device reg value := by
  constructor
  · intro hallows
    exact ⟨h.devices ▸ hallows.known,hallows.inside,hallows.small,h.policy ▸ hallows.policy⟩
  · intro hallows
    exact ⟨h.devices.symm ▸ hallows.known,hallows.inside,hallows.small,h.policy.symm ▸ hallows.policy⟩

variable (P : I2cPlatform ε)

theorem shows_emitFlags (w : I2cWorld ε) (type : EventType) (status : Status) (source : EventSource) (op : EventOp)
    (device : I2cDevice) (reg : ℕ) (value : UInt8) (flags : ℕ) :
    Shows (typeMark ⟨device.addr7b.toNat,reg,value.toNat⟩ type).toList w
      (emitFlags P w type status source op device reg value flags) :=
  shows_call rfl rfl rfl (congrArg Option.toList (eventMark_eq rfl))

theorem shows_observe {deviceId : ℕ} {device : I2cDevice} (hknown : w.state.devices.items[deviceId]? = some device)
    (type : EventType) (op : EventOp) (reg : ℕ) (value : UInt8) (status : Status) :
    Shows (typeMark ⟨device.addr7b.toNat,reg,value.toNat⟩ type).toList w
      (masterServiceObserve P w deviceId type op reg value status) := by
  have hget : devicesGet w.state.devices deviceId = .ok device := by
    unfold devicesGet
    rw [hknown]
  unfold masterServiceObserve
  rw [hget]
  exact shows_emitFlags P w type status .host op device reg value _

theorem shows_recordResponse (w : I2cWorld ε) (deviceId : ℕ) (address : UInt8) (status : Status) (read : Bool) :
    Shows [] w (recordResponse w deviceId address status read) := by
  unfold recordResponse
  split
  · exact shows_refl w
  · split
    · exact shows_refl w
    · exact shows_call rfl rfl rfl rfl

theorem shows_cacheResponse (w : I2cWorld ε) (deviceId : ℕ) (target : I2cDevice) (reg value : UInt8)
    (status : Status) : Shows [] w (cacheResponse P w deviceId target reg value status) := by
  unfold cacheResponse
  split
  · exact shows_refl w
  · split
    · split
      · unfold cacheWrite
        split
        · exact shows_refl w
        · exact shows_call rfl rfl rfl rfl
      · unfold cacheInvalidate
        split
        · exact shows_refl w
        · exact shows_call rfl rfl rfl rfl
    · exact shows_refl w

/-! ## Writes -/

/-- What is seen of one write, with the status it returns. A refused write has its reason. -/
inductive WriteTrail (s : I2cState) (deviceId : ℕ) (device : I2cDevice) (reg value : UInt8) (x : I2cWrite) :
    Status → List (Mark I2cWrite) → Prop where
  | refused {status : Status} {o : Outcome} (hstatus : status ≠ .ok) (ho : o ≠ .commit)
      (hno : ¬s.Allows deviceId device reg value) :
      WriteTrail s deviceId device reg value x status [.attempt x,.outcome o x]
  | committed : WriteTrail s deviceId device reg value x .ok [.attempt x,.forward x,.outcome .commit x]
  | failed {status : Status} (hstatus : status ≠ .ok) :
      WriteTrail s deviceId device reg value x status [.attempt x,.forward x,.outcome .fault x]

theorem shows_forwardWrite (w : I2cWorld ε) (deviceId : ℕ) (device : I2cDevice) (reg value : UInt8)
    (source : EventSource) (wasPresent : Bool) (timeoutMs : ℕ) :
    let x : I2cWrite := ⟨device.addr7b.toNat,reg.toNat,value.toNat⟩
    let out := forwardWrite P w deviceId device reg value source wasPresent timeoutMs
    (out.1 = .ok ∧ Shows [.forward x,.outcome .commit x] w out.2) ∨
      (out.1 ≠ .ok ∧ Shows [.forward x,.outcome .fault x] w out.2) := by
  intro x
  unfold forwardWrite
  dsimp only
  have hbus : Shows [.forward x] w (backendWrite P w device reg value timeoutMs).2 := shows_call rfl rfl rfl rfl
  generalize backendWrite P w device reg value timeoutMs = out at hbus ⊢
  obtain ⟨status,w₁⟩ := out
  dsimp only at hbus ⊢
  have hrecord := hbus.before (shows_recordResponse w₁ deviceId device.addr7b status false)
  have hsent := hrecord.before (shows_emitFlags P _ .masterWrite status source .write device reg.toNat value
    (confirmedFlag wasPresent status))
  generalize emitFlags P _ .masterWrite status source .write device reg.toNat value
    (confirmedFlag wasPresent status) = w₂ at hsent ⊢
  split
  · rename_i hstatus
    have hfault := hsent.trans (shows_emitFlags P w₂ .fault status source .write device reg.toNat value eventFlagNone)
    exact Or.inr ⟨hstatus,hfault.before (shows_cacheResponse P _ deviceId device reg 0 status)⟩
  · have hcached := hsent.before (shows_cacheResponse P w₂ deviceId device reg value .ok)
    exact Or.inl ⟨rfl,hcached.trans (shows_emitFlags P _ .regCommit .ok source .write device reg.toNat value
      eventFlagNone)⟩

theorem write_trail {deviceId : ℕ} {device : I2cDevice} (hknown : w.state.devices.items[deviceId]? = some device)
    (reg value : UInt8) (source : EventSource) (timeoutMs : ℕ) :
    ∃ l, WriteTrail w.state deviceId device reg value ⟨device.addr7b.toNat,reg.toNat,value.toNat⟩
        (masterServiceWrite P w deviceId reg value source timeoutMs).1 l ∧
      Shows l w (masterServiceWrite P w deviceId reg value source timeoutMs).2 := by
  have hget : devicesGet w.state.devices deviceId = .ok device := by
    unfold devicesGet
    rw [hknown]
  unfold masterServiceWrite
  rw [hget]
  dsimp only
  have hattempt := shows_emitFlags P w .regAttempt .ok source .write device reg.toNat value eventFlagNone
  split
  · rename_i hrange
    have hno : ¬w.state.Allows deviceId device reg value := by
      intro hallows
      rcases hrange with hreg | hvalue
      · exact absurd hallows.inside (Nat.not_lt.mpr hreg)
      · exact absurd hallows.small (UInt8.not_le.mpr hvalue)
    have hfault := hattempt.trans (shows_emitFlags P _ .fault .range source .write device reg.toNat value
      eventFlagNone)
    exact ⟨_,.refused (by simp) (by simp) hno,hfault⟩
  · split
    · rename_i hdenied
      have hno : ¬w.state.Allows deviceId device reg value := by
        intro hallows
        have hpermits := policyPermits_iff.mpr ⟨hallows.inside,hallows.small,hallows.policy⟩
        exact absurd (hpermits.symm.trans hdenied) (by simp)
      have hdenied := hattempt.trans (shows_emitFlags P _ .regDenied .denied source .write device reg.toNat value
        eventFlagNone)
      exact ⟨_,.refused (by simp) (by simp) hno,hdenied⟩
    · rcases shows_forwardWrite P (emit P w .regAttempt .ok source .write device reg.toNat value) deviceId device reg
        value source (presenceConfirmed w.state deviceId) timeoutMs with ⟨hstatus,hshows⟩ | ⟨hstatus,hshows⟩
      · rw [hstatus]
        exact ⟨_,.committed,hattempt.trans hshows⟩
      · exact ⟨_,.failed hstatus,hattempt.trans hshows⟩

/-! ## Frames -/

/-- The audit of bytes that are not forwarded. -/
def tailTrail : List I2cWrite → List (Mark I2cWrite)
  | [] => []
  | x :: xs => .attempt x :: .outcome .fault x :: tailTrail xs

/-- The audit of the data bytes of a frame from register `reg` on: forwarded one after the
other up to the first that is refused or fails, the rest only audited. -/
inductive FrameTrail (s : I2cState) (deviceId : ℕ) (device : I2cDevice) :
    ℕ → List UInt8 → List (Mark I2cWrite) → Prop where
  | done {reg : ℕ} : FrameTrail s deviceId device reg [] []
  | beyond {reg : ℕ} {data : List UInt8} (hreg : device.regCount ≤ reg) :
      FrameTrail s deviceId device reg data (tailTrail (bytesFrom device.addr7b reg data))
  | committed {reg : ℕ} {value : UInt8} {data : List UInt8} {l : List (Mark I2cWrite)} {x : I2cWrite}
      (hx : x = ⟨device.addr7b.toNat,reg,value.toNat⟩) (h : FrameTrail s deviceId device (reg + 1) data l) :
      FrameTrail s deviceId device reg (value :: data) (.attempt x :: .forward x :: .outcome .commit x :: l)
  | failed {reg : ℕ} {value : UInt8} {data : List UInt8} {x : I2cWrite}
      (hx : x = ⟨device.addr7b.toNat,reg,value.toNat⟩) :
      FrameTrail s deviceId device reg (value :: data)
        (.attempt x :: .forward x :: .outcome .fault x :: tailTrail (bytesFrom device.addr7b (reg + 1) data))
  | refused {reg : ℕ} {value : UInt8} {data : List UInt8} {x : I2cWrite} {o : Outcome}
      (hx : x = ⟨device.addr7b.toNat,reg,value.toNat⟩) (ho : o ≠ .commit)
      (hno : ¬s.Allows deviceId device (UInt8.ofNat reg) value) :
      FrameTrail s deviceId device reg (value :: data)
        (.attempt x :: .outcome o x :: tailTrail (bytesFrom device.addr7b (reg + 1) data))

theorem shows_observeCaptures {target : ℕ} {device : I2cDevice} (data : List UInt8) :
    ∀ (reg : ℕ) (w : I2cWorld ε), w.state.devices.items[target]? = some device →
      Shows ((bytesFrom device.addr7b reg data).map .captured) w (observeCaptures P target reg data w) := by
  induction data with
  | nil => exact fun reg w _ => shows_refl w
  | cons value data ih =>
    intro reg w hknown
    have hfirst := shows_observe P hknown .captureWrite .write reg value .ok
    exact hfirst.trans (ih (reg + 1) _ (hfirst.devices.symm ▸ hknown))

theorem shows_auditTail {target : ℕ} {device : I2cDevice} (status : Status) (data : List UInt8) :
    ∀ (reg : ℕ) (w : I2cWorld ε), w.state.devices.items[target]? = some device →
      Shows (tailTrail (bytesFrom device.addr7b reg data)) w (auditTail P target status reg data w) := by
  induction data with
  | nil => exact fun reg w _ => shows_refl w
  | cons value data ih =>
    intro reg w hknown
    have hattempt := shows_observe P hknown .regAttempt .write reg value .ok
    have hfault := shows_observe P (hattempt.devices.symm ▸ hknown) .fault .write reg value status
    have hboth := hattempt.trans hfault
    exact hboth.trans (ih (reg + 1) _ (hboth.devices.symm ▸ hknown))

theorem shows_forwardBytes {target : ℕ} {device : I2cDevice} (timeoutMs : ℕ) (hcount : device.regCount ≤ 256)
    (s : I2cState) (data : List UInt8) :
    ∀ (reg : ℕ) (w : I2cWorld ε), w.state.devices = s.devices → w.state.policy = s.policy →
      w.state.devices.items[target]? = some device →
      ∃ l, FrameTrail s target device reg data l ∧
        Shows l w (forwardBytes P target device.regCount timeoutMs reg data w).2 := by
  induction data with
  | nil => exact fun reg w _ _ _ => ⟨[],.done,shows_refl w⟩
  | cons value data ih =>
    intro reg w hdevices hpolicy hknown
    unfold forwardBytes
    split
    · rename_i hreg
      exact ⟨_,.beyond hreg,shows_auditTail P .range (value :: data) reg w hknown⟩
    · rename_i hreg
      have hlt : reg < 256 := by omega
      have hbyte : (UInt8.ofNat reg).toNat = reg := UInt8.toNat_ofNat_of_lt' hlt
      obtain ⟨l,htrail,hshows⟩ := write_trail P hknown (UInt8.ofNat reg) value .host timeoutMs
      rw [hbyte] at htrail
      generalize masterServiceWrite P w target (UInt8.ofNat reg) value .host timeoutMs = out at htrail hshows ⊢
      obtain ⟨status,w₁⟩ := out
      dsimp only at htrail hshows ⊢
      have hknown' := hshows.devices.symm ▸ hknown
      cases htrail with
      | refused hstatus ho hno =>
        rw [if_pos hstatus]
        have hno' : ¬s.Allows target device (UInt8.ofNat reg) value := fun hallows =>
          hno ⟨hdevices.symm ▸ hallows.known,hallows.inside,hallows.small,hpolicy.symm ▸ hallows.policy⟩
        exact ⟨_,.refused rfl ho hno',hshows.trans (shows_auditTail P .notReady data (reg + 1) w₁ hknown')⟩
      | committed =>
        rw [if_neg (by simp)]
        obtain ⟨l',htrail',hshows'⟩ := ih (reg + 1) w₁ (hshows.devices.trans hdevices)
          (hshows.policy.trans hpolicy) hknown'
        exact ⟨_,.committed rfl htrail',hshows.trans hshows'⟩
      | failed hstatus =>
        rw [if_pos hstatus]
        exact ⟨_,.failed rfl,hshows.trans (shows_auditTail P .notReady data (reg + 1) w₁ hknown')⟩

end

/-! ## Reading a trail -/

theorem tailTrail_parts (xs : List I2cWrite) : captures (tailTrail xs) = [] ∧ attempts (tailTrail xs) = xs ∧
    forwards (tailTrail xs) = [] ∧ outcomeList (tailTrail xs) = xs := by
  induction xs with
  | nil => exact ⟨rfl,rfl,rfl,rfl⟩
  | cons x xs ih =>
    obtain ⟨hc,ha,hf,ho⟩ := ih
    exact ⟨hc,congrArg _ ha,hf,congrArg _ ho⟩

/-- Each byte is attempted once and ends once, in order, and a prefix goes out. -/
theorem FrameTrail.parts {s : I2cState} {deviceId : ℕ} {device : I2cDevice} {reg : ℕ} {data : List UInt8}
    {l : List (Mark I2cWrite)} (h : FrameTrail s deviceId device reg data l) :
    captures l = [] ∧ attempts l = bytesFrom device.addr7b reg data ∧
      outcomeList l = bytesFrom device.addr7b reg data ∧
      ∃ n, forwards l = (bytesFrom device.addr7b reg data).take n := by
  induction h with
  | done => exact ⟨rfl,rfl,rfl,0,rfl⟩
  | @beyond reg data hreg =>
    obtain ⟨hc,ha,hf,ho⟩ := tailTrail_parts (bytesFrom device.addr7b reg data)
    exact ⟨hc,ha,ho,0,hf⟩
  | committed hx h ih =>
    obtain ⟨hc,ha,ho,n,hf⟩ := ih
    subst hx
    exact ⟨hc,congrArg _ ha,congrArg _ ho,n + 1,congrArg _ hf⟩
  | @failed reg value data x hx =>
    obtain ⟨hc,ha,hf,ho⟩ := tailTrail_parts (bytesFrom device.addr7b (reg + 1) data)
    subst hx
    exact ⟨hc,congrArg _ ha,congrArg _ ho,1,congrArg _ hf⟩
  | @refused reg value data x o hx ho' hno =>
    obtain ⟨hc,ha,hf,ho⟩ := tailTrail_parts (bytesFrom device.addr7b (reg + 1) data)
    subst hx
    exact ⟨hc,congrArg _ ha,congrArg _ ho,0,hf⟩

end Bvstk.I2c
