import FiduciaMessaging.Subjects

/-! The crate error type and the publish-boundary guard that raises it. -/
namespace FiduciaMessaging

variable [External]

inductive MessagingError where
  | unsupportedEnvelopeVersion (version : UInt16)
  | missingIdentity
  | invalidSubject (error : SubjectError)
  | payloadTooLarge (actual limit : Nat)
  | serialize (error : String)
  | transport (error : String)
  | database (error : String)
  deriving DecidableEq

def MessagingError.toString : MessagingError → String
  | .unsupportedEnvelopeVersion version => "unsupported envelope version " ++ Nat.repr version.toNat
  | .missingIdentity => "message_type and source must be non-empty"
  | .invalidSubject error => "invalid publish subject: " ++ error.toString
  | .payloadTooLarge actual limit =>
    "message payload is " ++ Nat.repr actual ++ " bytes; limit is " ++ Nat.repr limit
  | .serialize error => "serialize/deserialize failed: " ++ error
  | .transport error => "transport error: " ++ error
  | .database error => "database error: " ++ error

/-- The NATS server default `max_payload`, 1 MiB. -/
def maxMessageBytes : Nat := 1048576

/-- A canonical subject and a payload within the limit. -/
def validateForPublish (subject : String) (payloadLen : Nat) : Except MessagingError Unit :=
  match Subject.parse subject with
  | .error error => .error (.invalidSubject error)
  | .ok _ =>
    if payloadLen > maxMessageBytes then .error (.payloadTooLarge payloadLen maxMessageBytes)
    else .ok ()

end FiduciaMessaging
