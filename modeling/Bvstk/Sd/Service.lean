import Bvstk.Library.CallLog
import Bvstk.Sd.Volume

/-! # The SD service

`bvstk_sd_service.c`: one card behind a driver and a lock. Raw operations come from the console,
disk operations from the file system once it has claimed the card. The driver and the lock may
answer anything; what the driver is asked for is recorded.
-/
namespace Bvstk.Sd
open CallLog

/-! ## State -/

/-- What is looked at of `bvstk_sd_master_report_t`; `ocr` is `init_reply[5]`. -/
structure SdReport where
  stage : String
  ocr : UInt32
  deriving DecidableEq, Repr

structure SdResult where
  hardware : SdReport
  writeHardware : SdReport
  prepareHardware : SdReport
  lba : UInt32
  mismatchOffset : UInt32
  reinitializations : UInt32
  status : Status
  deriving DecidableEq, Repr

def SdReport.zero : SdReport := ⟨"",0⟩

/-- A result as an operation starts it. -/
def SdResult.start : SdResult := ⟨⟨"service",0⟩,SdReport.zero,SdReport.zero,0,0xFFFFFFFF,0,.notReady⟩

def SdResult.stage (r : SdResult) (stage : String) : SdResult := { r with hardware := { r.hardware with stage := stage } }

/-- `bvstk_sd_service_t` with its `info`. -/
structure SdState where
  ready : Bool
  blockAddressed : Bool
  filesystemOwned : Bool
  ocr : UInt32
  last : SdResult
  reinitializeBetweenCommands : Bool
  commandSinceInit : Bool

/-- `bvstk_sd_service_attach`. -/
def SdState.attach (reinitializeBetweenCommands : Bool) : SdState :=
  ⟨false,false,false,0,⟨⟨"not initialized",0⟩,SdReport.zero,SdReport.zero,0,0xFFFFFFFF,0,.notReady⟩,
    reinitializeBetweenCommands,false⟩

/-- What the driver was asked for, with its answer. -/
inductive SdCall where
  | init (timeoutMs : UInt32) (status : Status) (ocr : UInt32)
  | command (command : UInt8) (argument : UInt32) (write : Option Sector) (status : Status) (read : Sector)

/-- The lock and the driver. A sector is received by a read that succeeds. -/
structure SdPlatform (ε : Type) where
  lock : ε → Status × ε
  init : ε → (timeoutMs : UInt32) → (Status × SdReport) × ε
  command : ε → (command : UInt8) → (argument : UInt32) → (write : Option Sector) → (timeoutMs : UInt32) →
    (Status × SdReport × Sector) × ε

abbrev SdWorld (ε : Type) := World SdState ε SdCall

section
variable {ε : Type} (P : SdPlatform ε)

/-- `bvstk_sd_master_initialize`. -/
def masterInitialize (w : SdWorld ε) (timeoutMs : UInt32) : (Status × SdReport) × SdWorld ε :=
  let (answer,env) := P.init w.env timeoutMs
  (answer,World.call { w with env := env } (.init timeoutMs answer.1 answer.2.ocr))

def commandTimeoutMs : UInt32 := 5000

/-- `bvstk_sd_master_command`. -/
def masterCommand (w : SdWorld ε) (command : UInt8) (argument : UInt32) (write : Option Sector) :
    (Status × SdReport × Sector) × SdWorld ε :=
  let (answer,env) := P.command w.env command argument write commandTimeoutMs
  (answer,World.call { w with env := env } (.command command argument write answer.1 answer.2.2))

/-! ## Parts of operations -/

/-- `begin`: the reason why an operation does not get to the card. -/
def begin (requireReady filesystem : Bool) (w : SdWorld ε) : Option SdResult × SdWorld ε :=
  let (status,env) := P.lock w.env
  let w := { w with env := env }
  if status ≠ .ok then (some { SdResult.start with status := status },w)
  else if w.state.filesystemOwned ≠ filesystem then
    (some ({ SdResult.start with status := .busy }.stage "filesystem owns card; raw commands disabled"),w)
  else if requireReady = true ∧ w.state.ready = false then (some SdResult.start,w)
  else (none,w)

/-- A status after which the transfer was aborted. -/
def aborted (status : Status) : Bool := status == .io || status == .timeout || status == .internal

/-- `finish`. -/
def finish (r : SdResult) (status : Status) (w : SdWorld ε) : SdResult × SdWorld ε :=
  let r := { r with status := status }
  (r,w.modify fun s => { s with ready := if aborted status then false else s.ready, last := r })

/-- `address`. -/
def address (s : SdState) (lba : UInt32) : Option UInt32 :=
  if s.blockAddressed = false ∧ 0xFFFFFFFF / 512 < lba then none
  else some (if s.blockAddressed then lba else lba * 512)

/-- `prepare_command`: the full init sequence for an isolated command, not a retry. -/
def prepareCommand (r : SdResult) (w : SdWorld ε) : (Status × SdResult) × SdWorld ε :=
  if w.state.reinitializeBetweenCommands = false ∨ w.state.commandSinceInit = false then ((.ok,r),w)
  else
    let r := { r with reinitializations := r.reinitializations + 1 }
    let ((status,report),w) := masterInitialize P w 20000
    let r := { r with prepareHardware := report }
    if status ≠ .ok then ((status,r),w)
    else if report.ocr ≠ w.state.ocr then
      ((.io,{ r with prepareHardware := { report with stage := "OCR changed; explicit init required" } }),w)
    else ((.ok,r),w.modify fun s => { s with commandSinceInit := false })

/-- `transfer`: a write if there is a sector to write, else a read. -/
def transfer (lba : UInt32) (write : Option Sector) (r : SdResult) (w : SdWorld ε) :
    (Status × Sector × SdResult) × SdWorld ε :=
  let r := { r with lba := lba }
  match address w.state lba with
  | none => ((.range,Vector.replicate 512 0,r.stage "LBA range"),w)
  | some argument =>
    match prepareCommand P r w with
    | ((.ok,r),w) =>
      let w := w.modify fun s => { s with commandSinceInit := true }
      let ((status,report,read),w) := masterCommand P w (if write.isSome then 24 else 17) argument write
      ((status,read,{ r with hardware := report }),w)
    | ((status,r),w) => ((status,Vector.replicate 512 0,r),w)

/-- `compare`. -/
def compare (expected received : Sector) (r : SdResult) : Status × SdResult :=
  match (List.finRange 512).find? fun i => expected[i] != received[i] with
  | none => (.ok,r)
  | some i => (.io,{ r with mismatchOffset := UInt32.ofNat i.val }.stage "readback mismatch")

/-! ## Operations -/

/-- `initialize_locked`. -/
def initializeLocked (timeoutMs : UInt32) (r : SdResult) (w : SdWorld ε) : SdResult × SdWorld ε :=
  if 120000 < timeoutMs then finish r .range w
  else
    let w := w.modify fun s => { s with ready := false, ocr := 0, blockAddressed := false, commandSinceInit := false }
    let ((status,report),w) := masterInitialize P w timeoutMs
    let r := { r with hardware := report }
    if status ≠ .ok then finish r status w
    else
      let w := w.modify fun s => { s with ocr := report.ocr, blockAddressed := report.ocr &&& 0x40000000 != 0 }
      if w.state.blockAddressed = true then finish r .ok (w.modify fun s => { s with ready := true })
      else if w.state.reinitializeBetweenCommands = true then
        finish (r.stage "SDSC not qualified for isolated profile") .unsupported w
      else
        -- a card that is addressed by bytes is told the length of a block
        let ((status,report,_),w) := masterCommand P w 16 512 none
        finish { r with writeHardware := report } status
          (w.modify fun s => { s with commandSinceInit := true, ready := status == .ok })

def serviceInitialize (timeoutMs : UInt32) (w : SdWorld ε) : SdResult × SdWorld ε :=
  match begin P false false w with
  | (some r,w) => (r,w)
  | (none,w) => initializeLocked P timeoutMs SdResult.start w

/-- `bvstk_sd_service_disk_claim`: the card is claimed even if it cannot be initialised. -/
def serviceDiskClaim (w : SdWorld ε) : SdResult × SdWorld ε :=
  match begin P false false w with
  | (some r,w) => (r,w)
  | (none,w) => initializeLocked P 20000 SdResult.start (w.modify fun s => { s with filesystemOwned := true })

/-- `read_block`. -/
def readBlock (lba : UInt32) (filesystem : Bool) (w : SdWorld ε) : (SdResult × Sector) × SdWorld ε :=
  match begin P true filesystem w with
  | (some r,w) => ((r,Vector.replicate 512 0),w)
  | (none,w) =>
    let ((status,read,r),w) := transfer P lba none SdResult.start w
    let (r,w) := finish r status w
    ((r,read),w)

/-- The part of `write_block` after the write. -/
def readBack (lba : UInt32) (block : Sector) (r : SdResult) (w : SdWorld ε) : SdResult × SdWorld ε :=
  let ((status,received,r),w) := transfer P lba none r w
  if status ≠ .ok then finish r status w
  else
    let (status,r) := compare block received r
    finish r status w

/-- `write_block`. -/
def writeBlock (lba : UInt32) (block : Sector) (filesystem : Bool) (w : SdWorld ε) : SdResult × SdWorld ε :=
  match begin P true filesystem w with
  | (some r,w) => (r,w)
  | (none,w) =>
    let ((status,_,r),w) := transfer P lba (some block) SdResult.start w
    let r := { r with writeHardware := r.hardware }
    if status ≠ .ok then finish r status w else readBack P lba block r w

/-- `simple_command`. -/
def simpleCommand (cmd : UInt8) (w : SdWorld ε) : SdResult × SdWorld ε :=
  match begin P true false w with
  | (some r,w) => (r,w)
  | (none,w) =>
    match prepareCommand P SdResult.start w with
    | ((.ok,r),w) =>
      let w := w.modify fun s => { s with commandSinceInit := true }
      let ((status,report,_),w) := masterCommand P w cmd (if cmd = 16 then 512 else 0) none
      finish { r with hardware := report } status w
    | ((status,r),w) => finish r status w

def xorshift (state : UInt32) : UInt32 :=
  let state := state ^^^ (state <<< 13)
  let state := state ^^^ (state >>> 17)
  state ^^^ (state <<< 5)

/-- `bvstk_sd_service_pattern`. -/
def pattern (lba seed : UInt32) : Sector :=
  let state := seed ^^^ lba ^^^ 0x9e3779b9
  let state := if state = 0 then 1 else state
  Vector.ofFn fun i =>
    if i.val < 4 then (lba >>> UInt32.ofNat (i.val * 8)).toUInt8
    else if i.val < 8 then (seed >>> UInt32.ofNat ((i.val - 4) * 8)).toUInt8
    else (Nat.repeat xorshift (i.val + 1) state).toUInt8

/-- The writes of a test, from the sector `i` on; `none` if all went well. -/
def testWrites (lba seed : UInt32) : (left i : ℕ) → SdResult → SdWorld ε → (Option Status × SdResult) × SdWorld ε
  | 0, _, r, w => ((none,r),w)
  | left + 1, i, r, w =>
    let ((status,_,r),w) := transfer P (lba + UInt32.ofNat i) (some (pattern (lba + UInt32.ofNat i) seed)) r w
    let r := { r with writeHardware := r.hardware }
    if status ≠ .ok then ((some status,r),w) else testWrites lba seed left (i + 1) r w

def testReads (lba seed : UInt32) : (left i : ℕ) → SdResult → SdWorld ε → (Option Status × SdResult) × SdWorld ε
  | 0, _, r, w => ((none,r),w)
  | left + 1, i, r, w =>
    let ((status,received,r),w) := transfer P (lba + UInt32.ofNat i) none r w
    if status ≠ .ok then ((some status,r),w)
    else
      let (status,r) := compare (pattern (lba + UInt32.ofNat i) seed) received r
      if status ≠ .ok then ((some status,r),w) else testReads lba seed left (i + 1) r w

/-- `bvstk_sd_service_test`: all sectors are written before any is read. -/
def serviceTest (lba count seed : UInt32) (w : SdWorld ε) : SdResult × SdWorld ε :=
  match begin P true false w with
  | (some r,w) => (r,w)
  | (none,w) =>
    if count = 0 ∨ 8 < count ∨ 0xFFFFFFFF - (count - 1) < lba ∨ (address w.state (lba + count - 1)).isNone then
      finish SdResult.start .range w
    else
      match testWrites P lba seed count.toNat 0 SdResult.start w with
      | ((some status,r),w) => finish r status w
      | ((none,r),w) =>
        match testReads P lba seed count.toNat 0 r w with
        | ((some status,r),w) => finish r status w
        | ((none,r),w) => finish r .ok w

/-! ## Runs -/

inductive SdOp where
  | init (timeoutMs : UInt32)
  | diskClaim
  | read (lba : UInt32)
  | writeVerify (lba : UInt32) (block : Sector)
  | diskRead (lba : UInt32)
  | diskWrite (lba : UInt32) (block : Sector)
  | cardStatus
  | blockLength
  | test (lba count seed : UInt32)

def SdWorld.step (w : SdWorld ε) : SdOp → SdWorld ε × SdResult
  | .init timeoutMs => ((serviceInitialize P timeoutMs w).2,(serviceInitialize P timeoutMs w).1)
  | .diskClaim => ((serviceDiskClaim P w).2,(serviceDiskClaim P w).1)
  | .read lba => ((readBlock P lba false w).2,(readBlock P lba false w).1.1)
  | .writeVerify lba block => ((writeBlock P lba block false w).2,(writeBlock P lba block false w).1)
  | .diskRead lba => ((readBlock P lba true w).2,(readBlock P lba true w).1.1)
  | .diskWrite lba block => ((writeBlock P lba block true w).2,(writeBlock P lba block true w).1)
  | .cardStatus => ((simpleCommand P 13 w).2,(simpleCommand P 13 w).1)
  | .blockLength => ((simpleCommand P 16 w).2,(simpleCommand P 16 w).1)
  | .test lba count seed => ((serviceTest P lba count seed w).2,(serviceTest P lba count seed w).1)

end

end Bvstk.Sd
