import Mathlib.Algebra.Group.Int.Defs
import Mathlib.Algebra.Group.Nat.Defs

/-! Base types shared by every module, and the third-party functions the crate
calls. The latter are parameters: nothing is assumed of them here. -/
namespace FiduciaMessaging

/-- A 128-bit identifier. -/
abbrev Uuid := BitVec 128

/-- Microseconds since the epoch, the resolution of `timestamptz`. -/
abbrev Timestamp := Int

/-- A `std::time::Duration` as a number of nanoseconds. -/
abbrev Duration := Nat

/-- `Duration::MAX`: `u64::MAX` seconds and 999999999 nanoseconds. -/
def Duration.max : Duration := (2 ^ 64 - 1) * 1000000000 + 999999999

def Duration.fromSecs (seconds : Nat) : Duration := seconds * 1000000000

def Duration.fromMillis (millis : Nat) : Duration := millis * 1000000

def Duration.asMillis (duration : Duration) : Nat := duration / 1000000

def Duration.saturatingAdd (a b : Duration) : Duration := min (a + b) Duration.max

/-- `serde_json::Number`; a float is kept as its bits. -/
inductive Number where
  | posInt (n : UInt64)
  | negInt (n : Int64)
  | float (bits : UInt64)

/-- `serde_json::Value`. -/
inductive Value where
  | null
  | bool (b : Bool)
  | number (n : Number)
  | string (s : String)
  | array (items : List Value)
  | object (fields : List (String × Value))

/-- What the crate takes from other crates and from the formatting machinery. -/
class External where
  /-- `serde_json::to_vec` of a value. -/
  toVec : Value → Except String (List UInt8)
  /-- Whether `Uuid::parse_str` accepts a string. -/
  parseUuid : String → Bool
  /-- `Sha256::digest`. -/
  sha256 : List UInt8 → List UInt8
  /-- The `{:?}` rendering of a string. -/
  debug : String → String

end FiduciaMessaging
