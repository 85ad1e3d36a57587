import Mathlib.Data.Nat.Notation

/-! # Status codes

`bvstk_status_t`, and the code each carries in an event record or on the wire.
-/
namespace Bvstk

inductive Status where
  | ok | malformed | unsupported | denied | busy | timeout | range | notReady | notFound | io | internal
  deriving DecidableEq, Repr

def Status.code : Status → ℕ
  | .ok => 0
  | .malformed => 1
  | .unsupported => 2
  | .denied => 3
  | .busy => 4
  | .timeout => 5
  | .range => 6
  | .notReady => 7
  | .notFound => 8
  | .io => 9
  | .internal => 10

end Bvstk
