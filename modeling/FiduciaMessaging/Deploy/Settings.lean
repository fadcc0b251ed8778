import FiduciaMessaging.Error
import FiduciaMessaging.Connect.Policy
import FiduciaMessaging.Outbox.Relay

/-! What the binaries read from their environment, and the errors that stop them before
they claim or publish anything. -/
namespace FiduciaMessaging

open Text

/-- `std::env::var(name).ok()`. -/
abbrev Environment := String → Option String

/- Why `main` returned an error: a text of its own, a connection of the database, or an
error of the crate. The last is `MessagingError::Config`. -/
inductive StartupError where
  | setting (text : String)
  | database (error : String)
  | messaging (error : MessagingError)
  | config (text : String)

def u64Max : Nat := 2 ^ 64 - 1

/- Decimal digits, at least one, and a value of at most `limit`. -/
def readDigits (limit : Nat) (digits : List Char) : Option Nat :=
  if digits ≠ [] ∧ digits.all Char.isDigit ∧ Nat.ofDigitChars 10 digits 0 ≤ limit then
    some (Nat.ofDigitChars 10 digits 0)
  else none

/- `str::parse` at an unsigned type whose greatest value is `limit`. -/
def parseUnsigned (limit : Nat) (text : List Char) : Option Nat :=
  match text with
  | '+' :: digits => readDigits limit digits
  | _ => readDigits limit text

/- `str::parse::<i64>`. -/
def parseI64 (text : List Char) : Option Int :=
  match text with
  | '-' :: digits => (readDigits (2 ^ 63) digits).map (fun n => -(n : Int))
  | _ => (parseUnsigned (2 ^ 63 - 1) text).map (fun n => (n : Int))

/- `u64::checked_mul`. -/
def checkedMul (a b : Nat) : Option Nat := if a * b ≤ u64Max then some (a * b) else none

/- A setting that may be absent or blank, but not misspelt. -/
def parseSetting {α : Type} [External] (name expected : String) (fallback : α)
    (read : List Char → Option α) (raw : Option String) : Except StartupError α :=
  match raw.map (fun text => trim text.toList) with
  | none => .ok fallback
  | some [] => .ok fallback
  | some v =>
    match read v with
    | some value => .ok value
    | none => .error (.config (name ++ " must be " ++ expected ++ ", got " ++
        External.debug (String.ofList v)))

def replicasEnv : String := "FIDUCIA_STREAM_REPLICAS"

def maxAgeEnv : String := "FIDUCIA_STREAM_MAX_AGE_HOURS"

def defaultMaxAge : Duration := Duration.fromSecs (7 * 24 * 3600)

def parseReplicas [External] (raw : Option String) : Except StartupError Nat :=
  parseSetting replicasEnv "an integer in 1..=5" 1
    (fun v => (parseUnsigned u64Max v).filter (fun n => 1 ≤ n && n ≤ 5)) raw

def parseMaxAge [External] (raw : Option String) : Except StartupError Duration :=
  parseSetting maxAgeEnv "a non-negative integer number of hours" defaultMaxAge
    (fun v => ((parseUnsigned u64Max v).bind (checkedMul · 3600)).map Duration.fromSecs) raw

/- `1` and `true` in any case are on, everything else is off. -/
def envFlag (value : Option String) : Bool :=
  match value.map (fun text => trim text.toList) with
  | some v => v == ['1'] || eqIgnoreAsciiCase v "true".toList
  | none => false

/- `RELAY_BATCH`; what is not an `i64` counts as unset. -/
def relayBatch (env : Environment) : Int :=
  ((env "RELAY_BATCH").bind (fun s => parseI64 s.toList)).getD 100

/- `RELAY_RETENTION_HOURS`; a number of hours that is zero or overflows counts as unset. -/
def relayRetention (env : Environment) : Option Duration :=
  (((env "RELAY_RETENTION_HOURS").bind (fun value => parseUnsigned u64Max value.toList)).filter
    (fun hours => 0 < hours && (checkedMul hours 3600).isSome)).map
      (fun hours => Duration.fromSecs (hours * 3600))

variable {n : Nat}

/-- An accepted setting is the fallback or a value its reader returned. -/
theorem parseSetting_ok {α : Type} [External] {name expected : String} {fallback value : α}
    {read : List Char → Option α} {raw : Option String}
    (accepted : parseSetting name expected fallback read raw = .ok value) :
    value = fallback ∨ ∃ v, read v = some value := by
  unfold parseSetting at accepted
  split at accepted
  · exact .inl (Except.ok.inj accepted).symm
  · exact .inl (Except.ok.inj accepted).symm
  · rename_i v _ _
    split at accepted
    · rename_i found
      exact .inr ⟨v, Except.ok.inj accepted ▸ found⟩
    · cases accepted

theorem parseReplicas_range [External] {raw : Option String}
    (accepted : parseReplicas raw = .ok n) : 1 ≤ n ∧ n ≤ 5 := by
  rcases parseSetting_ok accepted with rfl | ⟨v, read⟩
  · decide
  · obtain ⟨_, inside⟩ := Option.filter_eq_some_iff.mp read
    simpa using inside

/-- A retention age is a whole number of hours, at least one, that a `u64` of seconds holds. -/
theorem relayRetention_hours {env : Environment} {age : Duration}
    (configured : relayRetention env = some age) :
    ∃ hours, 1 ≤ hours ∧ hours * 3600 ≤ u64Max ∧
      age = Duration.fromSecs (hours * 3600) := by
  obtain ⟨hours, kept, rfl⟩ := Option.map_eq_some_iff.mp configured
  obtain ⟨_, passes⟩ := Option.filter_eq_some_iff.mp kept
  have fits : 0 < hours ∧ (checkedMul hours 3600).isSome = true := by simpa using passes
  refine ⟨hours, fits.1, ?_, rfl⟩
  by_contra large
  have none_ : checkedMul hours 3600 = none := if_neg large
  simp [none_] at fits

end FiduciaMessaging
