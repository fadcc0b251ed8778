import FiduciaMessaging.External

/-! The subject taxonomy `fiducia.<group>.<event>.v<version>`. -/
namespace FiduciaMessaging

variable [External]

/-- Why a subject token or string was rejected. -/
inductive SubjectError where
  | empty
  | invalidChar (token : String)
  | identifierInSubject (token : String)
  | zeroVersion
  | malformed (subject : String)
  deriving DecidableEq

def SubjectError.toString : SubjectError → String
  | .empty => "subject token must be non-empty"
  | .invalidChar token =>
    "subject token " ++ External.debug token ++
      " must be lowercase alphanumeric or hyphen (no leading/trailing '-')"
  | .identifierInSubject token =>
    "subject token " ++ External.debug token ++
      " looks like an identifier; identifiers belong in the envelope, not the subject"
  | .zeroVersion => "subject version must be >= 1"
  | .malformed subject => "not a fiducia subject: " ++ External.debug subject

/-- The fixed root token of every subject. -/
def root : String := "fiducia"

def tokenChar (c : Char) : Bool := c.isLower || c.isDigit || c == '-'

/-- Non-empty, `[a-z0-9-]`, no leading or trailing hyphen, and not a UUID. -/
def validateToken (token : String) : Except SubjectError Unit :=
  if token = "" then .error .empty
  else if !token.toList.all tokenChar || token.toList.head? == some '-' ||
      token.toList.getLast? == some '-' then .error (.invalidChar token)
  else if External.parseUuid token then .error (.identifierInSubject token)
  else .ok ()

structure Subject where
  group : String
  event : String
  version : Nat
  deriving DecidableEq

def Subject.new (group event : String) (version : Nat) : Except SubjectError Subject := do
  validateToken group
  validateToken event
  if version = 0 then throw .zeroVersion
  return ⟨group, event, version⟩

def digitValue (c : Char) : Option Nat := if c.isDigit then some (c.toNat - '0'.toNat) else none

/-- `str::parse::<u32>`: an optional `+`, at least one digit, no overflow. -/
def parseU32 (text : List Char) : Option Nat :=
  let digits := match text with
    | '+' :: rest => rest
    | _ => text
  if digits = [] then none
  else digits.foldlM (fun value c => do
    let digit ← digitValue c
    if value * 10 + digit < 2 ^ 32 then some (value * 10 + digit) else none) 0

def versionToken (version : Nat) : List Char := 'v' :: Nat.toDigits 10 version

def Subject.asString (subject : Subject) : String :=
  root ++ "." ++ subject.group ++ "." ++ subject.event ++ "." ++
    String.ofList (versionToken subject.version)

/-- What a consumer subscribes to: every event of the group and version. -/
def Subject.groupWildcard (group : String) (version : Nat) : Except SubjectError String := do
  validateToken group
  if version = 0 then throw .zeroVersion
  return root ++ "." ++ group ++ ".*." ++ String.ofList (versionToken version)

def Subject.parse (subject : String) : Except SubjectError Subject :=
  match subject.toList.splitOn '.' with
  | [first, group, event, 'v' :: digits] =>
    if first = root.toList then
      match parseU32 digits with
      | some version =>
        -- only the spelling that renders back byte for byte
        if 'v' :: digits = versionToken version then
          Subject.new (String.ofList group) (String.ofList event) version
        else .error (.malformed subject)
      | none => .error (.malformed subject)
    else .error (.malformed subject)
  | _ => .error (.malformed subject)

end FiduciaMessaging
