import FiduciaMessaging.Envelope

/-! Outbox records, their constructors and the deduplication id. -/
namespace FiduciaMessaging

variable [External]

inductive OutboxStatus where
  | pending | published | failed
  deriving DecidableEq

/-- The columns of an outbox row that no statement updates after the insert. -/
structure Staged where
  id : Uuid
  subject : String
  tenantId : Option Uuid
  idempotencyKey : String
  dedupId : String
  payload : Value
  createdAt : Timestamp

/-- A record as the producer builds it and as a claim returns it. -/
structure OutboxRecord extends Staged where
  status : OutboxStatus
  attempts : UInt32

def bigEndian (width n : Nat) : List UInt8 :=
  (List.range width).map (fun i => UInt8.ofNat (n / 256 ^ (width - 1 - i)))

/-- The bytes `tenant_scoped_dedup_id` feeds to the hash. -/
def dedupPreimage (tenantId : Option Uuid) (idempotencyKey : String) : List UInt8 :=
  let key := idempotencyKey.toUTF8.data.toList
  "fiducia-messaging:nats-dedup:v1".toUTF8.data.toList ++ [0] ++
    (match tenantId with
    | some tenant => "tenant".toUTF8.data.toList ++ [0] ++ bigEndian 16 tenant.toNat
    | none => "global".toUTF8.data.toList ++ [0]) ++
    bigEndian 8 key.length ++ key

def hexByte (byte : UInt8) : List Char :=
  [Nat.digitChar (byte.toNat / 16), Nat.digitChar (byte.toNat % 16)]

def tenantScopedDedupId (tenantId : Option Uuid) (idempotencyKey : String) : String :=
  String.ofList (['v', '1', '-'] ++
    (External.sha256 (dedupPreimage tenantId idempotencyKey)).flatMap hexByte)

/-- A fresh tenant-scoped pending record with zero attempts. -/
def OutboxRecord.pendingForTenant (id : Uuid) (subject : String) (tenantId : Option Uuid)
    (idempotencyKey : String) (payload : Value) (createdAt : Timestamp) : OutboxRecord where
  id := id
  subject := subject
  tenantId := tenantId
  idempotencyKey := idempotencyKey
  dedupId := tenantScopedDedupId tenantId idempotencyKey
  payload := payload
  createdAt := createdAt
  status := .pending
  attempts := 0

def OutboxRecord.pending (id : Uuid) (subject idempotencyKey : String) (payload : Value)
    (createdAt : Timestamp) : OutboxRecord :=
  .pendingForTenant id subject none idempotencyKey payload createdAt

/-- The framing is validated first, so an envelope no consumer decodes is not staged. -/
def OutboxRecord.fromEnvelope {T : Type} [EnvelopeCodec T] (id : Uuid) (subject : String)
    (envelope : MessageEnvelope T) : Except MessagingError OutboxRecord := do
  envelope.validate
  let payload ← envelope.toJsonValue
  return .pendingForTenant id subject envelope.tenantId envelope.idempotencyKey payload
    envelope.createdAt

/-- Records that come out of one of the three constructors. -/
inductive OutboxRecord.Built : OutboxRecord → Prop where
  | pending (id subject idempotencyKey payload createdAt) :
      Built (.pending id subject idempotencyKey payload createdAt)
  | pendingForTenant (id subject tenantId idempotencyKey payload createdAt) :
      Built (.pendingForTenant id subject tenantId idempotencyKey payload createdAt)
  | fromEnvelope {T : Type} [EnvelopeCodec T] {id subject} {envelope : MessageEnvelope T} {record} :
      OutboxRecord.fromEnvelope id subject envelope = .ok record → Built record

/-- Every constructor ends in `pendingForTenant`. -/
theorem OutboxRecord.Built.pendingForTenant_form {record : OutboxRecord} (built : record.Built) :
    record = .pendingForTenant record.id record.subject record.tenantId record.idempotencyKey
      record.payload record.createdAt := by
  cases built with
  | pending => rfl
  | pendingForTenant => rfl
  | fromEnvelope made =>
    simp only [OutboxRecord.fromEnvelope, bind, Except.bind, pure, Except.pure] at made
    split at made
    · contradiction
    · split at made
      · contradiction
      · rw [← Except.ok.inj made]
        rfl

theorem OutboxRecord.Built.starts {record : OutboxRecord} (built : record.Built) :
    record.status = .pending ∧ record.attempts = 0 := by
  rw [built.pendingForTenant_form]
  exact ⟨rfl, rfl⟩

end FiduciaMessaging
