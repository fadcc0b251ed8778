import FiduciaMessaging.Error
import FiduciaMessaging.Foundations.Text

/-! The message envelope and its framing check. -/
namespace FiduciaMessaging

variable [External] {T : Type}

/-- The one wire-format version this build understands. -/
def envelopeVersion : UInt16 := 1

structure MessageEnvelope (T : Type) where
  envelopeVersion : UInt16
  messageId : Uuid
  messageType : String
  source : Option String
  schemaVersion : UInt32
  correlationId : Uuid
  causationId : Option Uuid
  tenantId : Option Uuid
  workflowId : Option Uuid
  executionId : Option Uuid
  idempotencyKey : String
  fencingToken : Option UInt64
  createdAt : Timestamp
  expiresAt : Option Timestamp
  traceParent : Option String
  payload : T
  deriving DecidableEq

/-- The root of a new correlation chain. -/
def MessageEnvelope.newAt (now : Timestamp) (messageId : Uuid) (messageType : String) (payload : T)
    (idempotencyKey : String) : MessageEnvelope T where
  envelopeVersion := FiduciaMessaging.envelopeVersion
  messageId := messageId
  messageType := messageType
  source := none
  schemaVersion := 1
  correlationId := messageId
  causationId := none
  tenantId := none
  workflowId := none
  executionId := none
  idempotencyKey := idempotencyKey
  fencingToken := none
  createdAt := now
  expiresAt := none
  traceParent := none
  payload := payload

def MessageEnvelope.withTenant (envelope : MessageEnvelope T) (tenantId : Uuid) :
    MessageEnvelope T :=
  { envelope with tenantId := some tenantId }

/-- The serde-derived writer and reader of an envelope, per payload type. -/
class EnvelopeCodec (T : Type) where
  toJsonValue : MessageEnvelope T → Except String Value
  fromSlice : List UInt8 → Except String (MessageEnvelope T)

def MessageEnvelope.validate (envelope : MessageEnvelope T) : Except MessagingError Unit :=
  if envelope.envelopeVersion ≠ FiduciaMessaging.envelopeVersion then
    .error (.unsupportedEnvelopeVersion envelope.envelopeVersion)
  else if Text.isBlank envelope.messageType.toList ||
      envelope.source.any (fun source => Text.isBlank source.toList) then
    .error .missingIdentity
  else .ok ()

def MessageEnvelope.toJsonValue [EnvelopeCodec T] (envelope : MessageEnvelope T) :
    Except MessagingError Value :=
  (EnvelopeCodec.toJsonValue envelope).mapError .serialize

def MessageEnvelope.decode [EnvelopeCodec T] (bytes : List UInt8) :
    Except MessagingError (MessageEnvelope T) := do
  let envelope ← (EnvelopeCodec.fromSlice (T := T) bytes).mapError .serialize
  envelope.validate
  return envelope

end FiduciaMessaging
