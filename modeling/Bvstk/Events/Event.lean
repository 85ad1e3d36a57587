import Mathlib.Data.Nat.Notation

/-! # Bus events

The event record of `bvstk_event.h`, shared by the services that emit it and the
journal that keeps it.
-/
namespace Bvstk.Events

inductive EventSource where
  | console | host | dcp | internal | web
  deriving DecidableEq, Repr

def EventSource.code : EventSource → ℕ
  | .console => 0
  | .host => 1
  | .dcp => 2
  | .internal => 3
  | .web => 4

inductive EventBus where
  | i2c | mdio | spi | uart | system
  deriving DecidableEq, Repr

def EventBus.code : EventBus → ℕ
  | .i2c => 0
  | .mdio => 1
  | .spi => 2
  | .uart => 3
  | .system => 4

inductive EventOp where
  | read | write | policyChange | configApply | stateChange
  deriving DecidableEq, Repr

def EventOp.code : EventOp → ℕ
  | .read => 0
  | .write => 1
  | .policyChange => 2
  | .configApply => 3
  | .stateChange => 4

/-- The first five are audit events, the rest software observations. -/
inductive EventType where
  | regAttempt | regCommit | regDenied | stateChanged | fault
  | captureWrite | masterRead | masterWrite | slavePointer | slaveReadRequest | slaveReplyPrepared
  deriving DecidableEq, Repr

def EventType.code : EventType → ℕ
  | .regAttempt => 0x0001
  | .regCommit => 0x0002
  | .regDenied => 0x0003
  | .stateChanged => 0x0004
  | .fault => 0x0005
  | .captureWrite => 0x0101
  | .masterRead => 0x0102
  | .masterWrite => 0x0103
  | .slavePointer => 0x0104
  | .slaveReadRequest => 0x0105
  | .slaveReplyPrepared => 0x0106

def eventFlagNone : ℕ := 0x00
def eventFlagTelemetryUnconfirmed : ℕ := 0x01

/-- `bvstk_event_t`. The type is a plain `uint16_t` there: a publisher may store
any number, so it is one here too. -/
structure Event where
  timeUs : ℕ
  type : ℕ
  status : ℕ
  source : ℕ
  bus : ℕ
  operation : ℕ
  flags : ℕ
  arg0 : ℕ
  arg1 : ℕ
  arg2 : ℕ
  deriving DecidableEq, Repr

/-- A zero-initialised record. -/
def Event.zero : Event := ⟨0,0,0,0,0,0,0,0,0,0⟩

end Bvstk.Events
