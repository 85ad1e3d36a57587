import Bvstk.Dcp2.ControlMemory
import Bvstk.Dcp2.PolicyBuses

/-! # Requests of the control protocol

`bvstk_dcp2_process_request`: a request goes to the service that it names, and its result is put
into a frame. The reply of the SPI core may be anything.
-/
namespace Bvstk.Dcp2
open Config I2c Mdio Events Surfaces Wire CallLog

/-! ## Services -/

structure ControlPlatform (ε : Type) where
  pl : PlPlatform ε
  i2c : I2cPlatform ε
  mdio : MdioPlatform ε
  /-- `bvstk_spi_core_transfer`: the words that were received, where there are any. -/
  spi : ε → (tx : List UInt32) → (timeoutMs : ℕ) → (Status × (ℕ → UInt32)) × ε

/-- `bvstk_control_api_t`: the services that there are. -/
structure Control (ε : Type) where
  pl : PlWorld ε
  i2c : Option (I2cWorld ε)
  mdio : Option (MdioWorld ε)
  spi : Option ε

def servicePing : UInt8 := 0
def serviceMem : UInt8 := 1
def serviceI2c : UInt8 := 2
def serviceMdio : UInt8 := 3
def serviceSpi : UInt8 := 4

def opPing : UInt8 := 0
def opReadReg : UInt8 := 0
def opWriteReg : UInt8 := 1
def opSpiTransfer : UInt8 := 0

/-- `POLICY_SET` to `POLICY_CLEAR`, for both buses. -/
def isPolicyOp (opcode : UInt8) : Bool := decide (opPolicySet ≤ opcode.toNat) && decide (opcode.toNat ≤ opPolicyClear)

section
variable {ε : Type} (P : ControlPlatform ε)

/-! ## Handlers -/

/-- The part of `process_i2c` after the device was found. -/
def i2cRegister (opcode : UInt8) (body : List UInt8) (w : I2cWorld ε) (deviceId : ℕ) : (Status × List UInt8) × I2cWorld ε :=
  if opcode = opReadReg then
    if body.length ≠ 2 then ((.malformed,[]),w)
    else
      let ((status,value),w) := masterServiceReadFrom P.i2c w deviceId (body.getD 1 0) .internal 100
      ((status,if status = .ok then [value] else []),w)
  else if opcode = opWriteReg then
    if body.length ≠ 3 then ((.malformed,[]),w)
    else
      let (status,w) := masterServiceWrite P.i2c w deviceId (body.getD 1 0) (body.getD 2 0) .dcp 100
      ((status,[]),w)
  else ((.unsupported,[]),w)

/-- `process_i2c`. -/
def processI2c (opcode : UInt8) (body : List UInt8) (capacity : ℕ) (service : Option (I2cWorld ε)) :
    (Status × List UInt8) × Option (I2cWorld ε) :=
  if isPolicyOp opcode = true then processPolicy i2cBus opcode.toNat body capacity service
  else if opcode ≠ opReadReg ∧ opcode ≠ opWriteReg then ((.unsupported,[]),service)
  else
    match service with
    | none => ((.notReady,[]),none)
    | some w =>
      if body.length < 2 then ((.malformed,[]),some w)
      else
        match masterServiceFindByAddr w.state (body.getD 0 0) with
        | none => ((.notFound,[]),some w)
        | some deviceId => ((i2cRegister P opcode body w deviceId).1,some (i2cRegister P opcode body w deviceId).2)

/-- The part of `process_mdio` after the PHY was found. -/
def mdioRegister (opcode : UInt8) (body : List UInt8) (w : MdioWorld ε) (deviceId : ℕ) :
    (Status × List UInt8) × MdioWorld ε :=
  if opcode = opReadReg then
    if body.length ≠ 2 then ((.malformed,[]),w)
    else
      let ((status,value),w) := serviceReadFrom P.mdio w deviceId (body.getD 1 0) .internal 100
      ((status,if status = .ok then beBytes 2 value.toNat else []),w)
  else if opcode = opWriteReg then
    if body.length ≠ 4 then ((.malformed,[]),w)
    else
      let (status,w) := serviceWrite P.mdio w deviceId (body.getD 1 0) (UInt16.ofNat (beAt body 2 2)) .dcp 100
      ((status,[]),w)
  else ((.unsupported,[]),w)

/-- `process_mdio`. -/
def processMdio (opcode : UInt8) (body : List UInt8) (capacity : ℕ) (service : Option (MdioWorld ε)) :
    (Status × List UInt8) × Option (MdioWorld ε) :=
  if isPolicyOp opcode = true then processPolicy (mdioBus P.mdio) opcode.toNat body capacity service
  else if opcode ≠ opReadReg ∧ opcode ≠ opWriteReg then ((.unsupported,[]),service)
  else
    match service with
    | none => ((.notReady,[]),none)
    | some w =>
      if body.length < 2 then ((.malformed,[]),some w)
      else
        match serviceFindByPhy P.mdio w (body.getD 0 0) with
        | (.error status,w) => ((status,[]),some w)
        | (.ok deviceId,w) => ((mdioRegister P opcode body w deviceId).1,some (mdioRegister P opcode body w deviceId).2)

/-- `process_spi`. The length that a body should have is cut to 16 bits. -/
def processSpi (opcode : UInt8) (body : List UInt8) (spi : Option ε) : (Status × List UInt8) × Option ε :=
  match spi with
  | none => ((.notReady,[]),none)
  | some env =>
    if opcode ≠ opSpiTransfer ∨ body.length < 2 then ((.malformed,[]),some env)
    else
      let count := beAt body 0 2
      if count = 0 ∨ 256 < count ∨ body.length ≠ (2 + count * 4) % 2^16 then ((.range,[]),some env)
      else
        let tx := (List.range count).map fun i => UInt32.ofNat (beAt body (2 + i * 4) 4)
        let ((status,rx),env) := P.spi env tx 100
        if status ≠ .ok then ((status,[]),some env)
        else ((.ok,(List.range count).flatMap fun i => beBytes 4 (rx i).toNat),some env)

/-! ## The request -/

/-- The service that a request names does it. -/
def processBody (r : Request) (bodyCapacity : ℕ) (c : Control ε) : (Status × List UInt8) × Control ε :=
  if r.service = servicePing ∧ r.opcode = opPing ∧ r.body.length = 0 then ((.ok,[]),c)
  else if r.service = serviceMem then
    let (out,w) := processMem P.pl r.opcode r.body c.pl
    (out,{ c with pl := w })
  else if r.service = serviceI2c then
    let (out,w) := processI2c P r.opcode r.body bodyCapacity c.i2c
    (out,{ c with i2c := w })
  else if r.service = serviceMdio then
    let (out,w) := processMdio P r.opcode r.body bodyCapacity c.mdio
    (out,{ c with mdio := w })
  else if r.service = serviceSpi then
    let (out,spi) := processSpi P r.opcode r.body c.spi
    (out,{ c with spi := spi })
  else ((.unsupported,[]),c)

/-- `body_capacity`. -/
def bodyCapacity (responseCapacity : ℕ) : ℕ :=
  if maxPayloadSize - 6 < responseCapacity - 14 then maxPayloadSize - 6 else responseCapacity - 14

/-- `bvstk_dcp2_process_request`: `none` for `-1`. -/
def processRequest (r : Request) (responseCapacity : ℕ) (c : Control ε) : Option (List UInt8) × Control ε :=
  if responseCapacity < 14 then (none,c)
  else
    let ((status,body),c) := processBody P r (bodyCapacity responseCapacity) c
    (encodeResponse responseCapacity r (statusFromBvstk status) body (UInt16.ofNat body.length),c)

end

/-! ## How long bodies are -/

section
variable {ε : Type} {P : ControlPlatform ε} {opcode : UInt8} {body : List UInt8} {capacity : ℕ}

theorem readWord_length (P : ControlPlatform ε) (body : List UInt8) (i : ℕ) (x : List UInt8 × PlWorld ε) : (readWord P.pl body i x).2.1.length ≤ x.1.length + 4 := by
  unfold readWord
  split
  · exact Nat.le_add_right _ _
  split
  · exact Nat.le_add_right _ _
  · simp

theorem processMem_length (w : PlWorld ε) : (processMem P.pl opcode body w).1.2.length ≤ maxPayloadSize - 6 := by
  unfold processMem
  dsimp only
  split
  · exact Nat.zero_le _
  split
  · exact Nat.zero_le _
  split
  · split
    · exact Nat.zero_le _
    rename_i hfits
    rw [not_or, Nat.not_lt] at hfits
    have hlength := Sweep.upTo_bound (fun x => x.1.length) (readWord_length P body)
      (List.range (beAt body 6 2)) ([],w)
    rw [List.length_range, List.length_nil, Nat.zero_add] at hlength
    split
    · rename_i data w' hrun
      rw [hrun] at hlength
      exact hlength.trans hfits.2
    · exact Nat.zero_le _
  split
  · split
    · exact Nat.zero_le _
    split
    · exact Nat.zero_le _
    · exact Nat.zero_le _
  · exact Nat.zero_le _

theorem processPolicy_length {ω ρ : Type} {B : PolicyBus ω ρ} {view : ω → ℕ → Option (PolicyView ρ)}
    {perform : ω → ℕ → PolicyEdit ρ → Status × ω} {readRule : Wire.Bytes → Option (ρ × Wire.Bytes)} {Unchanged : ω → ω → Prop}
    (hB : LawfulBus B view perform readRule Unchanged) {opcode : ℕ} (service : Option ω) :
    (processPolicy B opcode body capacity service).1.2.length ≤ maxPayloadSize - 6 := by
  unfold processPolicy
  split
  · exact Nat.zero_le _
  split
  · exact Nat.zero_le _
  split
  · exact Nat.zero_le _
  split
  · exact Nat.zero_le _
  split
  · exact Nat.zero_le _
  split
  · exact Nat.zero_le _
  split
  · rename_i w deviceId w' hfind hget
    unfold answerPolicy
    split
    · exact Nat.zero_le _
    dsimp only
    split
    · exact Nat.zero_le _
    split
    · exact Nat.zero_le _
    · rename_i hroom
      rw [not_or, Nat.not_lt, Nat.not_lt] at hroom
      exact (hB.answer_length _).trans_le hroom.2
  · exact Nat.zero_le _

theorem processI2c_length (service : Option (I2cWorld ε)) :
    (processI2c P opcode body capacity service).1.2.length ≤ maxPayloadSize - 6 := by
  unfold processI2c
  split
  · exact processPolicy_length i2cBus_lawful service
  split
  · exact Nat.zero_le _
  split
  · exact Nat.zero_le _
  split
  · exact Nat.zero_le _
  split
  · exact Nat.zero_le _
  · unfold i2cRegister
    split
    · split
      · exact Nat.zero_le _
      · dsimp only
        split
        · exact Nat.succ_le_of_lt (by decide)
        · exact Nat.zero_le _
    split
    · split
      · exact Nat.zero_le _
      · exact Nat.zero_le _
    · exact Nat.zero_le _

theorem processMdio_length (service : Option (MdioWorld ε)) :
    (processMdio P opcode body capacity service).1.2.length ≤ maxPayloadSize - 6 := by
  unfold processMdio
  split
  · exact processPolicy_length mdioBus_lawful service
  split
  · exact Nat.zero_le _
  split
  · exact Nat.zero_le _
  split
  · exact Nat.zero_le _
  split
  · exact Nat.zero_le _
  · unfold mdioRegister
    split
    · split
      · exact Nat.zero_le _
      · dsimp only
        split
        · rw [beBytes_length]
          decide
        · exact Nat.zero_le _
    split
    · split
      · exact Nat.zero_le _
      · exact Nat.zero_le _
    · exact Nat.zero_le _

theorem words_length (count : ℕ) (rx : ℕ → UInt32) :
    ((List.range count).flatMap fun i => beBytes 4 (rx i).toNat).length = count * 4 := by
  simp [List.length_flatMap]

theorem processSpi_length (spi : Option ε) : (processSpi P opcode body spi).1.2.length ≤ maxPayloadSize - 6 := by
  unfold processSpi
  split
  · exact Nat.zero_le _
  split
  · exact Nat.zero_le _
  dsimp only
  split
  · exact Nat.zero_le _
  rename_i hcount
  rw [not_or, not_or, Nat.not_lt] at hcount
  split
  · exact Nat.zero_le _
  · rw [words_length]
    exact (Nat.mul_le_mul_right 4 hcount.2.1).trans (by decide)

/-- Whatever the service, a body has room in a frame. -/
theorem processBody_length (r : Request) (c : Control ε) : (processBody P r capacity c).1.2.length ≤ maxPayloadSize - 6 := by
  unfold processBody
  split
  · exact Nat.zero_le _
  split
  · exact processMem_length c.pl
  split
  · exact processI2c_length c.i2c
  split
  · exact processMdio_length c.mdio
  split
  · exact processSpi_length c.spi
  · exact Nat.zero_le _

end

/-! ## Framing -/

/-- The result of a request is in the response, whole, or there is no response. -/
theorem processRequest_responds {ε : Type} (P : ControlPlatform ε) (r : Request) (capacity : ℕ) (c : Control ε) :
    let result := (processBody P r (bodyCapacity capacity) c).1
    ((capacity < 14 ∨ capacity < 14 + result.2.length) ∧ (processRequest P r capacity c).1 = none) ∨
      ∃ frame, (processRequest P r capacity c).1 = some frame ∧ Responds frame capacity r result.1 result.2 := by
  dsimp only
  unfold processRequest
  split
  · rename_i hsmall
    exact Or.inl ⟨Or.inl hsmall,rfl⟩
  · exact (encodeResponse_responds r _ (processBody_length r c)).imp (fun h => ⟨Or.inr h.1,h.2⟩) id

/-- Exactly the whole frames are requests, and every response is a whole frame that agrees with the
request and its result. -/
theorem control_framing {ε : Type} (P : ControlPlatform ε) :
    (∀ frame r, decodeRequest frame = some r ↔ WholeFrame frame r) ∧
    ∀ (r : Request) (capacity : ℕ) (c : Control ε),
      let result := (processBody P r (bodyCapacity capacity) c).1
      ((capacity < 14 ∨ capacity < 14 + result.2.length) ∧ (processRequest P r capacity c).1 = none) ∨
        ∃ frame, (processRequest P r capacity c).1 = some frame ∧ Responds frame capacity r result.1 result.2 :=
  ⟨fun _ _ => decodeRequest_whole,processRequest_responds P⟩

end Bvstk.Dcp2
