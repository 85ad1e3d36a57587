import Mathlib.Data.Nat.Notation

/-! # Wire status codes

The codes that the DCP2 services share.
-/
namespace Bvstk.Dcp2

def statusOk : ℕ := 0
def statusMalformed : ℕ := 1
def statusUnsupported : ℕ := 2
def statusBusy : ℕ := 4
def statusRange : ℕ := 6
def statusInternal : ℕ := 7

end Bvstk.Dcp2
