import FiduciaMessaging.Envelope
import FiduciaMessaging.Codec.Json
import FiduciaMessaging.Foundations.KeyedRecord

/-! The writer and the reader derived for the envelope: fields in declaration order, absent
options left out; fields read in any order, each at most once, foreign names skipped. -/
namespace FiduciaMessaging

/- The fields in declaration order. -/
inductive EnvelopeField where
  | envelopeVersion
  | messageId
  | messageType
  | source
  | schemaVersion
  | correlationId
  | causationId
  | tenantId
  | workflowId
  | executionId
  | idempotencyKey
  | fencingToken
  | createdAt
  | expiresAt
  | traceParent
  | payload
  deriving DecidableEq

namespace EnvelopeField

def name : EnvelopeField → String
  | envelopeVersion => "envelope_version"
  | messageId => "message_id"
  | messageType => "message_type"
  | source => "source"
  | schemaVersion => "schema_version"
  | correlationId => "correlation_id"
  | causationId => "causation_id"
  | tenantId => "tenant_id"
  | workflowId => "workflow_id"
  | executionId => "execution_id"
  | idempotencyKey => "idempotency_key"
  | fencingToken => "fencing_token"
  | createdAt => "created_at"
  | expiresAt => "expires_at"
  | traceParent => "trace_parent"
  | payload => "payload"

def all : List EnvelopeField :=
  [envelopeVersion, messageId, messageType, source, schemaVersion, correlationId, causationId,
    tenantId, workflowId, executionId, idempotencyKey, fencingToken, createdAt, expiresAt,
    traceParent, payload]

def ofName (name : String) : Option EnvelopeField := all.find? (fun field => field.name == name)

/- What a field holds. -/
abbrev Slot (T : Type) : EnvelopeField → Type
  | envelopeVersion => UInt16
  | messageId => Uuid
  | messageType => String
  | source => Option String
  | schemaVersion => UInt32
  | correlationId => Uuid
  | causationId => Option Uuid
  | tenantId => Option Uuid
  | workflowId => Option Uuid
  | executionId => Option Uuid
  | idempotencyKey => String
  | fencingToken => Option UInt64
  | createdAt => Timestamp
  | expiresAt => Option Timestamp
  | traceParent => Option String
  | payload => T

/- The fields that are left out when they are `none`. -/
def optional : EnvelopeField → Bool
  | source => true
  | causationId => true
  | tenantId => true
  | workflowId => true
  | executionId => true
  | fencingToken => true
  | expiresAt => true
  | traceParent => true
  | _ => false

/- The field with a default of its own. -/
def defaulted : EnvelopeField → Bool
  | envelopeVersion => true
  | _ => false

end EnvelopeField

/-- How a payload type is written as a field of an object and as a `Value`, and read back;
`absent` is what a missing field gives. -/
class PayloadCodec (T : Type) where
  write : T → Except String Field
  toValue : T → Except String Value
  read : Field → Except ReadError T
  absent : Option T

section Writer

variable [Serde] {T : Type}

def unsigned (n : Nat) : Value := .number (.posInt (UInt64.ofNat n))

/- What a field is written as, with `embed` for the scalars; nothing for an absent option. -/
def MessageEnvelope.entry {F : Type} (embed : Value → F) (envelope : MessageEnvelope T)
    (payload : F) : EnvelopeField → Option F
  | .envelopeVersion => some (embed (unsigned envelope.envelopeVersion.toNat))
  | .messageId => some (embed (.string (Serde.uuidText envelope.messageId)))
  | .messageType => some (embed (.string envelope.messageType))
  | .source => envelope.source.map (fun source => embed (.string source))
  | .schemaVersion => some (embed (unsigned envelope.schemaVersion.toNat))
  | .correlationId => some (embed (.string (Serde.uuidText envelope.correlationId)))
  | .causationId => envelope.causationId.map (fun id => embed (.string (Serde.uuidText id)))
  | .tenantId => envelope.tenantId.map (fun id => embed (.string (Serde.uuidText id)))
  | .workflowId => envelope.workflowId.map (fun id => embed (.string (Serde.uuidText id)))
  | .executionId => envelope.executionId.map (fun id => embed (.string (Serde.uuidText id)))
  | .idempotencyKey => some (embed (.string envelope.idempotencyKey))
  | .fencingToken => envelope.fencingToken.map (fun token => embed (unsigned token.toNat))
  | .createdAt => some (embed (.string (Serde.timeText envelope.createdAt)))
  | .expiresAt => envelope.expiresAt.map (fun at_ => embed (.string (Serde.timeText at_)))
  | .traceParent => envelope.traceParent.map (fun parent => embed (.string parent))
  | .payload => some payload

def MessageEnvelope.entries {F : Type} (embed : Value → F) (envelope : MessageEnvelope T)
    (payload : F) : List (String × F) :=
  EnvelopeField.all.filterMap (fun field =>
    (envelope.entry embed payload field).map (fun value => (field.name, value)))

/- What `serde_json::to_vec` prints. -/
def MessageEnvelope.fields [PayloadCodec T] (envelope : MessageEnvelope T) :
    Except String (List (String × Field)) := do
  let payload ← PayloadCodec.write envelope.payload
  return envelope.entries .tree payload

/-- `to_vec`. -/
def MessageEnvelope.toVec [PayloadCodec T] (envelope : MessageEnvelope T) :
    Except MessagingError (List UInt8) :=
  (envelope.fields.map Serde.print).mapError .serialize

def MessageEnvelope.encode [PayloadCodec T] (envelope : MessageEnvelope T) :
    Except MessagingError (List UInt8) := do
  envelope.validate
  envelope.toVec

end Writer

section Reader

variable [Serde] {T : Type}

def readUnsigned (bound : Nat) : Field → Except ReadError Nat
  | .tree (.number (.posInt n)) => if n.toNat < bound then .ok n.toNat else .error .invalidValue
  | .tree (.number (.negInt _)) => .error .invalidValue
  | _ => .error .invalidType

def readString : Field → Except ReadError String
  | .tree (.string s) => .ok s
  | _ => .error .invalidType

def readUuid (field : Field) : Except ReadError Uuid := do
  let text ← readString field
  match Serde.readUuid text with
  | some id => return id
  | none => throw .invalidValue

def readTime (field : Field) : Except ReadError Timestamp := do
  let text ← readString field
  match Serde.readTime text with
  | some at_ => return at_
  | none => throw .invalidValue

def readOption {A : Type} (read : Field → Except ReadError A) : Field →
    Except ReadError (Option A)
  | .tree .null => .ok none
  | field => (read field).map some

def EnvelopeField.read [PayloadCodec T] :
    (field : EnvelopeField) → Field → Except ReadError (field.Slot T)
  | .envelopeVersion, value => (readUnsigned (2 ^ 16) value).map UInt16.ofNat
  | .messageId, value => readUuid value
  | .messageType, value => readString value
  | .source, value => readOption readString value
  | .schemaVersion, value => (readUnsigned (2 ^ 32) value).map UInt32.ofNat
  | .correlationId, value => readUuid value
  | .causationId, value => readOption readUuid value
  | .tenantId, value => readOption readUuid value
  | .workflowId, value => readOption readUuid value
  | .executionId, value => readOption readUuid value
  | .idempotencyKey, value => readString value
  | .fencingToken, value =>
    readOption (fun value => (readUnsigned (2 ^ 64) value).map UInt64.ofNat) value
  | .createdAt, value => readTime value
  | .expiresAt, value => readOption readTime value
  | .traceParent, value => readOption readString value
  | .payload, value => PayloadCodec.read value

/- The slots of the generated visitor. -/
abbrev Slots (T : Type) := (field : EnvelopeField) → Option (field.Slot T)

def required {A : Type} (name : String) : Option A → Except ReadError A
  | some a => .ok a
  | none => .error (.missingField name)

/- A missing option is `none` and a missing version the current one; the rest must be there. -/
def Slots.finish [PayloadCodec T] (slots : Slots T) : Except ReadError (MessageEnvelope T) := do
  let messageId ← required "message_id" (slots .messageId)
  let messageType ← required "message_type" (slots .messageType)
  let schemaVersion ← required "schema_version" (slots .schemaVersion)
  let correlationId ← required "correlation_id" (slots .correlationId)
  let idempotencyKey ← required "idempotency_key" (slots .idempotencyKey)
  let createdAt ← required "created_at" (slots .createdAt)
  let payload ← required "payload" ((slots .payload).or PayloadCodec.absent)
  return {
    envelopeVersion := (slots .envelopeVersion).getD FiduciaMessaging.envelopeVersion
    messageId := messageId
    messageType := messageType
    source := (slots .source).getD none
    schemaVersion := schemaVersion
    correlationId := correlationId
    causationId := (slots .causationId).getD none
    tenantId := (slots .tenantId).getD none
    workflowId := (slots .workflowId).getD none
    executionId := (slots .executionId).getD none
    idempotencyKey := idempotencyKey
    fencingToken := (slots .fencingToken).getD none
    createdAt := createdAt
    expiresAt := (slots .expiresAt).getD none
    traceParent := (slots .traceParent).getD none
    payload := payload }

def visitMap [PayloadCodec T] (fields : List (String × Field)) :
    Except ReadError (MessageEnvelope T) := do
  let slots ← KeyedRecord.fill EnvelopeField.ofName (EnvelopeField.read (T := T))
    (fun field => .duplicateField field.name) fields (fun _ => none)
  Slots.finish slots

/- The index of the first field without a default that `given` elements leave out. -/
def firstMissing {F : Type} (all : List F) (defaulted : F → Bool) (given : Nat) : Option Nat :=
  ((all.zipIdx.drop given).find? (fun missing => !defaulted missing.1)).map (·.2)

/- An array stands for an object when it has one element for each field, in order. The elements
are read first, and what follows the last field is never read. -/
def visitSeq [PayloadCodec T] (items : List Field) : Except ReadError (MessageEnvelope T) := do
  let slots ← KeyedRecord.fill EnvelopeField.ofName (EnvelopeField.read (T := T))
    (fun field => .duplicateField field.name)
    ((EnvelopeField.all.map EnvelopeField.name).zip items) (fun _ => none)
  match firstMissing EnvelopeField.all EnvelopeField.defaulted items.length with
  | some index => throw (.invalidLength index)
  | none =>
    if EnvelopeField.all.length < items.length then throw .trailingCharacters
    Slots.finish slots

omit [Serde] in
/-- Only a field without a default ends the list of fields, so fewer elements are too few. -/
theorem firstMissing_none {given : Nat} :
    firstMissing EnvelopeField.all EnvelopeField.defaulted given = none ↔
      EnvelopeField.all.length ≤ given := by
  constructor
  · intro complete
    by_contra few
    have split : 15 = given + (15 - given) := by
      have all : EnvelopeField.all.length = 16 := rfl
      omega
    have ends : (EnvelopeField.payload, 15) ∈ EnvelopeField.all.zipIdx.drop 15 := by decide
    rw [congrArg (List.drop · EnvelopeField.all.zipIdx) split, ← List.drop_drop] at ends
    have missing := List.mem_of_mem_drop ends
    rw [firstMissing, Option.map_eq_none_iff, List.find?_eq_none] at complete
    exact complete _ missing rfl
  · intro enough
    rw [firstMissing, List.drop_eq_nil_of_le (by rwa [List.length_zipIdx])]
    rfl

/-- An array is read as the object with one element for each field, and no other array is. -/
theorem visitSeq_ok [PayloadCodec T] {items : List Field} {envelope : MessageEnvelope T} :
    visitSeq items = .ok envelope ↔ items.length = EnvelopeField.all.length ∧
      visitMap ((EnvelopeField.all.map EnvelopeField.name).zip items) = .ok envelope := by
  unfold visitSeq visitMap
  cases filled : KeyedRecord.fill EnvelopeField.ofName (EnvelopeField.read (T := T))
      (fun field => ReadError.duplicateField field.name)
      ((EnvelopeField.all.map EnvelopeField.name).zip items) (fun _ => none) with
  | error e => simp [bind, Except.bind]
  | ok slots =>
    simp only [bind, Except.bind]
    cases missing : firstMissing EnvelopeField.all EnvelopeField.defaulted items.length with
    | some index =>
      have few : items.length ≠ EnvelopeField.all.length := by
        intro exact_
        rw [firstMissing_none.mpr (Nat.le_of_eq exact_.symm)] at missing
        contradiction
      simp [throw, throwThe, MonadExceptOf.throw, few]
    | none =>
      have enough := firstMissing_none.mp missing
      by_cases many : EnvelopeField.all.length < items.length
      · simp [throw, throwThe, MonadExceptOf.throw, many, Nat.ne_of_gt many]
      · simp [Nat.le_antisymm (Nat.le_of_not_lt many) enough]

example : firstMissing EnvelopeField.all EnvelopeField.defaulted 0 = some 1 := by decide

def Document.toEnvelope [PayloadCodec T] : Document → Except ReadError (MessageEnvelope T)
  | .object fields => visitMap fields
  | .array items => visitSeq items
  | .scalar _ => .error .invalidType

end Reader

/- The codec derived for an envelope from that of its payload. -/
instance derived [Serde] {T : Type} [PayloadCodec T] : EnvelopeCodec T where
  toJsonValue envelope := do
    let payload ← PayloadCodec.toValue envelope.payload
    return .object (SortedMap.ofList (envelope.entries id payload))
  fromSlice bytes :=
    match Serde.scan bytes with
    | none => .error (Serde.explain .malformed bytes)
    | some document => document.toEnvelope.mapError (fun error => Serde.explain error bytes)

end FiduciaMessaging
