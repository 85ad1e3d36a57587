import Bvstk.Pl.Hardware
import Mathlib.Data.UInt

/-! # One command of the SD master

`bvstk_sd_master.c`: the command goes by DMA, its reply comes in a mailbox, and a block that is
read is taken over only after everything about it has been checked. A wait is followed for
`polls` rounds.
-/
namespace Bvstk.Pl.SdMaster
open Dialogue

/-! The registers, `bvstk_sd_master_regs.h`. -/

def csr : ℕ := 0x00
def irq : ℕ := 0x04
def packet : ℕ := 0x08
def delay : ℕ := 0x0c
def divider : ℕ := 0x18
def reset : UInt32 := 1
def startCommand : UInt32 := 14
def fallThrough : UInt32 := 3
def txControl : ℕ := 0x00
def txStatus : ℕ := 0x04
def txSource : ℕ := 0x18
def txLength : ℕ := 0x28
def rxControl : ℕ := 0x30
def rxStatus : ℕ := 0x34
def rxDestination : ℕ := 0x48
def rxLength : ℕ := 0x58
def dmaRun : UInt32 := 1
def dmaResetBit : UInt32 := 4
def dmaHalted : UInt32 := 1
def dmaIdle : UInt32 := 2
def dmaErrors : UInt32 := 0x770
def dmaIoc : UInt32 := 0x1000
def dmaIrqs : UInt32 := 0x7000
def txArea : ℕ := 0x400
def rxArea : ℕ := 0x1000
def blockSize : ℕ := 512
def rxBytes : ℕ := 514
def txBytes : ℕ := 522

def sentinel : UInt32 := 0xa5963cc3
def guardWord : UInt32 := 0x69c35aa5

/-- The mailbox of a command. -/
def mailboxOf (command : UInt8) : Option ℕ :=
  if command = 13 then some 0x34
  else if command = 16 then some 0x38
  else if command = 17 then some 0x3c
  else if command = 24 then some 0x44
  else none

inductive Region where
  | core | dma | bram
  deriving DecidableEq, Repr

abbrev Driver := Pl.Driver Region
abbrev Access := Pl.Access Region

/-- A driver with its `io_error`. -/
abbrev Session := StateT Bool Driver

abbrev Block := Vector UInt8 512

structure Config where
  bramBase : UInt32
  dataDivider : UInt16
  readMailboxIsStream : Bool
  readDescriptorBytes : UInt8

inductive Stage where
  | arguments | dmaReset | commandCompletion | dmaBounds | crc16 | cardResponse | complete
  deriving DecidableEq, Repr

structure Report where
  csr : UInt32 := 0
  irq : UInt32 := 0
  irqCount : UInt32 := 0
  txStatus : UInt32 := 0
  rxStatus : UInt32 := 0
  rxLength : UInt32 := 0
  reply : UInt32 := 0
  firstReply : UInt32 := sentinel
  elapsedMs : UInt32 := 0
  crcCalculated : UInt16 := 0
  crcReceived : UInt16 := 0
  command : UInt8
  guardsOk : Bool := false
  readIdleReply : Bool := false
  stage : Stage := .arguments

/-- What a command leaves behind: its status, the caller's block and the report. -/
structure Outcome where
  status : Status
  readBlock : Option Block
  report : Report

/-! ## Access to the registers -/

/-- `rd`: a read that fails gives zero and is remembered. -/
def rd (region : Region) (offset : ℕ) : Session UInt32 := fun ioError => do
  match ← mmioRead32 region offset with
  | some value => return (value,ioError)
  | none => return (0,true)

/-- `wr`: nothing is written after an error. -/
def wr (region : Region) (offset : ℕ) (value : UInt32) : Session Unit := fun ioError => do
  let ioError ← if ioError then pure true else do
    if ← mmioWrite32 region offset value then pure false else pure true
  barrier
  return ((),ioError)

def elapsed (start : UInt64) : Session UInt32 := do
  let now ← (nowMs : Driver UInt64)
  return (now - start).toUInt32

def resetLoop (start : UInt64) : (polls : ℕ) → Session Status
  | 0 => fun _ => .unfinished
  | polls + 1 => do
    let tx ← rd .dma txControl
    let rx ← rd .dma rxControl
    if ← get then return .io
    if (tx ||| rx) &&& dmaResetBit = 0 then
      wr .dma txStatus dmaIrqs
      wr .dma rxStatus dmaIrqs
      return if ← get then .io else .ok
    (sleepMs 1 : Driver Unit)
    if (← elapsed start) < 100 then resetLoop start polls else return .timeout

def dmaReset (polls : ℕ) : Session Status := do
  let start ← (nowMs : Driver UInt64)
  wr .dma txControl dmaResetBit
  resetLoop start polls

def abortTransfer (polls : ℕ) : Session Unit := do
  (disable : Driver Unit)
  set false
  let _ ← dmaReset polls
  wr .core csr reset

def snapshot (r : Report) : Session Report := do
  let csr ← rd .core csr
  let irq ← rd .core irq
  let irqCount ← (count : Driver UInt32)
  let txStatus ← rd .dma txStatus
  let rxStatus ← rd .dma rxStatus
  let rxLength ← rd .dma rxLength
  return { r with csr := csr, irq := r.irq ||| irq, irqCount := irqCount, txStatus := txStatus, rxStatus := rxStatus, rxLength := rxLength }

def dmaDone (status : UInt32) : Bool :=
  status &&& (dmaIoc ||| dmaIdle ||| dmaHalted ||| dmaErrors) = dmaIoc ||| dmaIdle

/-! ## Checksums and the command frame -/

def crc7Bit (s : UInt8 × UInt8) : UInt8 × UInt8 :=
  let crc := s.1 <<< 1
  (if (s.2 ^^^ crc) &&& 0x80 ≠ 0 then crc ^^^ 0x09 else crc,s.2 <<< 1)

def crc7Byte (crc byte : UInt8) : UInt8 := (crc7Bit^[8] (crc,byte)).1

def crc7 (data : List UInt8) : UInt8 := (data.foldl crc7Byte 0 <<< 1) ||| 1

def crc16Bit (crc : UInt16) : UInt16 := (crc <<< 1) ^^^ (if crc &&& 0x8000 ≠ 0 then 0x1021 else 0)

def crc16Byte (crc : UInt16) (byte : UInt8) : UInt16 := crc16Bit^[8] (crc ^^^ (byte.toUInt16 <<< 8))

def crc16 (data : List UInt8) : UInt16 := data.foldl crc16Byte 0

/-- `bvstk_sd_master_encode`. -/
def encode (command : UInt8) (argument : UInt32) : UInt32 × UInt32 :=
  let frame : List UInt8 := [0x40 ||| command,(argument >>> 24).toUInt8,(argument >>> 16).toUInt8,(argument >>> 8).toUInt8,
    argument.toUInt8]
  (((argument &&& (0xff : UInt32)) <<< 24) ||| ((argument &&& (0xff00 : UInt32)) <<< 8) |||
      ((argument >>> 8) &&& (0xff00 : UInt32)) ||| (argument >>> 24),
    (0x40 ||| command).toUInt32 ||| ((crc7 frame).toUInt32 <<< 8))

/-! ## The command -/

/-- The place of the guard behind what is sent. -/
def txEnd (size : UInt32) : ℕ := txArea + ((size + 3) &&& ~~~3).toNat

/-- One more guard word, if those before were intact. -/
def andGuard (ok : Bool) (offset : ℕ) (intact : UInt32 → Bool) : Session Bool := do
  if ok then return intact (← rd .bram offset) else return false

def guardsValid (txSize : UInt32) (receive : Bool) : Session Bool := do
  let ok ← andGuard true (txArea - 4) (· = guardWord)
  let ok ← andGuard ok (txEnd txSize) (· = guardWord)
  if ¬receive then return ok
  let ok ← andGuard ok (rxArea - 4) (· = guardWord)
  let ok ← andGuard ok (rxArea + 516) (· = guardWord)
  andGuard ok (rxArea + 512) fun word => word &&& (0xffff0000 : UInt32) = sentinel &&& (0xffff0000 : UInt32)

/-- `left` words of the buffer memory from `offset` on, set to what `value` says. -/
def wrWords (offset : ℕ) (value : ℕ → UInt32) : (word left : ℕ) → Session Unit
  | _, 0 => return
  | word, left + 1 => do
    wr .bram (offset + 4 * word) (value word)
    wrWords offset value (word + 1) left

/-- Four bytes of the block to be written, the first highest. -/
def blockWord (b : Block) (word : ℕ) : UInt32 :=
  (b[4 * word]!.toUInt32 <<< 24) ||| (b[4 * word + 1]!.toUInt32 <<< 16) ||| (b[4 * word + 2]!.toUInt32 <<< 8) |||
    b[4 * word + 3]!.toUInt32

/-- A descriptor of 16 bytes holds the frame twice. -/
def layRepeat (command : UInt8) (size : UInt32) (words : UInt32 × UInt32) : Session Unit :=
  if command = 17 ∧ size = 16 then do
    wr .bram (txArea + 8) words.1
    wr .bram (txArea + 12) ((words.2 &&& 0xff) ||| 0xff00)
  else pure ()

/-- The block to be written, and its checksum. -/
def layBlock : Option Block → Session Unit
  | none => pure ()
  | some b => do
    wrWords (txArea + 8) (blockWord b) 0 128
    wr .bram (txArea + 520) (0xffff0000 ||| (crc16 b.toList).toUInt32)

/-- The receive area between its guards, and the channel that fills it. -/
def layReceive (c : Config) (receive : Bool) : Session Unit :=
  if receive then do
    wr .bram (rxArea - 4) guardWord
    wrWords rxArea (fun _ => sentinel) 0 129
    wr .bram (rxArea + 516) guardWord
    wr .dma rxControl dmaRun
    wr .dma rxDestination (c.bramBase + rxArea.toUInt32)
    wr .dma rxLength rxBytes.toUInt32
  else pure ()

/-- The command, its block and the guards are laid out, and receiving is armed. -/
def layOut (c : Config) (command : UInt8) (argument : UInt32) (mailbox : ℕ) (size : UInt32) (writeBlock : Option Block)
    (receive : Bool) : Session Unit := do
  wr .bram mailbox sentinel
  wr .bram (txArea - 4) guardWord
  wr .bram txArea (encode command argument).1
  wr .bram (txArea + 4) (encode command argument).2
  layRepeat command size (encode command argument)
  layBlock writeBlock
  wr .bram (txEnd size) guardWord
  layReceive c receive

def completionLoop (mailbox : ℕ) (receive : Bool) (start : UInt64) (timeoutMs : UInt32) :
    (polls : ℕ) → Report → Session (Status × Report)
  | 0, _ => fun _ => .unfinished
  | polls + 1, r => do
    let r ← snapshot r
    let reply ← rd .bram mailbox
    let r := { r with reply := reply, firstReply := if r.firstReply = sentinel ∧ reply ≠ sentinel then reply else r.firstReply }
    if (← get) ∨ (r.txStatus ||| r.rxStatus) &&& dmaErrors ≠ 0 then return (.io,r)
    if r.irqCount ≠ 0 ∧ r.reply ≠ sentinel ∧ dmaDone r.txStatus ∧ (¬receive ∨ dmaDone r.rxStatus) then return (.ok,r)
    (sleepMs 1 : Driver Unit)
    if (← elapsed start) < (if timeoutMs ≠ 0 then timeoutMs else 5000) then
      completionLoop mailbox receive start timeoutMs polls r
    else return (.timeout,r)

/-- The words of the receive area, `left` of them. -/
def rdWords : (word left : ℕ) → Session (List UInt32)
  | _, 0 => return []
  | word, left + 1 => do
    let value ← rd .bram (rxArea + 4 * word)
    let values ← rdWords (word + 1) left
    return value :: values

/-- The bytes of a word, the lowest first. -/
def wordBytes (word : UInt32) : List UInt8 := (List.range 4).map fun j => (word >>> (8 * j.toUInt32)).toUInt8

/-- The bytes received, cut to their number. -/
def received (words : List UInt32) : List UInt8 := (words.flatMap wordBytes).take rxBytes

def crcReceived (bytes : List UInt8) : UInt16 := (bytes[512]!.toUInt16 <<< 8) ||| bytes[513]!.toUInt16

def blockOf (bytes : List UInt8) : Block := Vector.ofFn fun i => bytes[i]!

/-- `failed:` -/
def failed (result : Status) (readBlock : Option Block) (polls : ℕ) (r : Report) : Session Outcome := do
  let r ← snapshot r
  abortTransfer polls
  return ⟨result,readBlock,r⟩

/-- After the card's data have been checked: its reply. -/
def cardResponse (c : Config) (command : UInt8) (readBlock : Option Block) (bytes : List UInt8) (polls : ℕ) (r : Report) :
    Session Outcome := do
  let r := { r with stage := .cardResponse }
  if r.reply ≠ 0 ∧ ¬(command = 17 ∧ c.readMailboxIsStream ∧ r.reply = 0xff) then failed .io readBlock polls r
  else
    let r := { r with readIdleReply := r.reply ≠ 0 }
    return ⟨.ok,readBlock.map fun _ => blockOf bytes,{ r with stage := .complete }⟩

/-- After completion: the guards, the length, and for a read the checksum. -/
def checkTransfer (c : Config) (command : UInt8) (size : UInt32) (readBlock : Option Block) (polls : ℕ) (r : Report) :
    Session Outcome := do
  let r := { r with stage := .dmaBounds }
  let guardsOk ← guardsValid size readBlock.isSome
  let r := { r with guardsOk := guardsOk }
  if ¬guardsOk ∨ (readBlock.isSome ∧ r.rxLength ≠ rxBytes.toUInt32) ∨ (← get) then failed .io readBlock polls r
  else if readBlock.isSome then
    let words ← rdWords 0 129
    let bytes := received words
    let r := { r with stage := .crc16, crcCalculated := crc16 (bytes.take blockSize), crcReceived := crcReceived bytes }
    if (← get) ∨ r.crcCalculated ≠ r.crcReceived then failed .io readBlock polls r
    else cardResponse c command readBlock bytes polls r
  else cardResponse c command readBlock [] polls r

/-- The command is handed over, and waited for. -/
def submit (c : Config) (command : UInt8) (argument : UInt32) (mailbox : ℕ) (size : UInt32) (writeBlock readBlock : Option Block)
    (timeoutMs : UInt32) (polls : ℕ) (r : Report) : Session Outcome := do
  layOut c command argument mailbox size writeBlock readBlock.isSome
  wr .dma txControl dmaRun
  wr .dma txSource (c.bramBase + txArea.toUInt32)
  let start ← (nowMs : Driver UInt64)
  wr .dma txLength size
  wr .core csr startCommand
  let (result,r) ← completionLoop mailbox readBlock.isSome start timeoutMs polls { r with stage := .commandCompletion }
  let elapsedMs ← elapsed start
  let r := { r with elapsedMs := elapsedMs }
  if result ≠ .ok then failed result readBlock polls r else checkTransfer c command size readBlock polls r

def commandSession (c : Config) (command : UInt8) (argument : UInt32) (mailbox : ℕ) (writeBlock readBlock : Option Block)
    (timeoutMs : UInt32) (polls : ℕ) (r : Report) : Session Outcome := do
  let size : UInt32 := if command = 17 then c.readDescriptorBytes.toUInt32 else if command = 24 then txBytes.toUInt32 else 8
  let r := { r with stage := .dmaReset }
  let result ← dmaReset polls
  if result ≠ .ok then failed result readBlock polls r
  else
    wr .core packet fallThrough
    wr .core delay 1
    wr .core divider c.dataDivider.toUInt32
    let result ← (prepare : Driver Status)
    if result ≠ .ok then failed result readBlock polls r
    else submit c command argument mailbox size writeBlock readBlock timeoutMs polls r

/-- `bvstk_sd_master_command`. -/
def masterCommand (opened : Bool) (c : Config) (command : UInt8) (argument : UInt32) (writeBlock readBlock : Option Block)
    (timeoutMs : UInt32) (polls : ℕ) : Driver Outcome :=
  if ¬opened then return ⟨.notReady,readBlock,{ command := command }⟩
  else match mailboxOf command with
    | none => return ⟨.unsupported,readBlock,{ command := command }⟩
    | some mailbox =>
      if decide (command = 24) ≠ writeBlock.isSome ∨ decide (command = 17) ≠ readBlock.isSome then
        return ⟨.malformed,readBlock,{ command := command }⟩
      else (commandSession c command argument mailbox writeBlock readBlock timeoutMs polls { command := command }).run' false

end Bvstk.Pl.SdMaster
