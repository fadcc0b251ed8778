import FiduciaMessaging.Outbox.Statements
import FiduciaMessaging.Foundations.Runs
import Mathlib.Logic.Function.Basic

/-! The database-coupled drainer as a machine. One `publish_batch` call is one
batch, named by the owner it draws; a worker is any sequence of batches. Every
await point is a phase, so database calls, publisher calls, crashes and clock
advances of all batches interleave freely. -/
namespace FiduciaMessaging

/-- `MAX_PUBLISH_BACKOFF` and `DEFAULT_CLAIM_TTL`. -/
def maxPublishBackoff : Duration := Duration.fromSecs 300

def defaultClaimTtl : Duration := Duration.fromSecs 300

def minDuplicateWindow (claimTtl : Duration) : Duration := claimTtl.saturatingAdd maxPublishBackoff

structure OutboxPublisher where
  batchSize : Int
  maxAttempts : Int
  claimTtl : Duration
  batchSize_pos : 1 ≤ batchSize
  maxAttempts_pos : 1 ≤ maxAttempts

namespace OutboxPublisher

def new : OutboxPublisher where
  batchSize := 100
  maxAttempts := 8
  claimTtl := defaultClaimTtl
  batchSize_pos := by decide
  maxAttempts_pos := by decide

def withBatchSize (relay : OutboxPublisher) (batchSize : Int) : OutboxPublisher :=
  { relay with batchSize := max batchSize 1, batchSize_pos := le_max_right _ _ }

def withMaxAttempts (relay : OutboxPublisher) (maxAttempts : Int) : OutboxPublisher :=
  { relay with maxAttempts := max maxAttempts 1, maxAttempts_pos := le_max_right _ _ }

def withClaimTtl (relay : OutboxPublisher) (claimTtl : Duration) : OutboxPublisher :=
  { relay with claimTtl := claimTtl }

end OutboxPublisher

structure PublishedMessage where
  subject : String
  dedupId : String
  payload : List UInt8
  deriving DecidableEq

/- A message in the broker's log and when it was stored. -/
structure Entry where
  message : PublishedMessage
  storedAt : Timestamp
  deriving DecidableEq

/- Where a batch stands between two awaits. `rest` is what the loop has not
reached; `unwind` is the error path of `publish_batch`, with the record whose
outcome could not be recorded after it was offered, if that is what failed. -/
inductive Phase where
  | row (record : OutboxRecord) (rest : List OutboxRecord) (published : Nat)
  | offer (bytes : List UInt8) (record : OutboxRecord) (rest : List OutboxRecord) (published : Nat)
  | publishing (record : OutboxRecord) (rest : List OutboxRecord) (published : Nat)
  | mark (record : OutboxRecord) (rest : List OutboxRecord) (published : Nat)
  | fail (record : OutboxRecord) (error : MessagingError) (published : Nat)
  | release (published : Nat)
  | unwind (error : MessagingError) (offered : Option OutboxRecord)
  | done (result : Except MessagingError Nat)
  | crashed

/- The head of `for record in rows`. -/
def Phase.loop : List OutboxRecord → Nat → Phase
  | [], published => .done (.ok published)
  | record :: rest, published => .row record rest published

/- Returned or gone; nothing of the batch runs any more. -/
def Phase.ended : Phase → Bool
  | .done _ => true
  | .crashed => true
  | _ => false

structure Batch where
  relay : OutboxPublisher
  leased : List OutboxRecord
  phase : Phase

/- What happened, for statements about runs. No step reads it. -/
inductive Event where
  | staged (row : Staged)
  | offered (owner : Uuid) (record : OutboxRecord)
  | acknowledged (owner : Uuid) (record : OutboxRecord)
  | marked (owner : Uuid) (record : OutboxRecord) (held : Bool)
  | lostLease (owner : Uuid) (record : OutboxRecord)

structure System where
  now : Timestamp
  table : List OutboxRow
  sent : List PublishedMessage
  log : List Entry
  batches : Uuid → Option Batch
  lostLeasePublishes : Nat
  trace : List Event

def System.initial (now : Timestamp) : System where
  now := now
  table := []
  sent := []
  log := []
  batches := fun _ => none
  lostLeasePublishes := 0
  trace := []

/- `failed` takes no effect; `lost` takes effect but is reported as an error. -/
inductive Reply where
  | ok
  | failed (error : String)
  | lost (error : String)

inductive Action where
  | enqueue (record : OutboxRecord) (startedAt : Timestamp)
  | claim (owner : Uuid) (relay : OutboxPublisher) (plan : Plan) (reply : Reply)
  | database (owner : Uuid) (reply : Reply) (at_ : Timestamp)
  | publish (owner : Uuid)
  | answer (owner : Uuid) (result : Except MessagingError Unit)
  | crash (owner : Uuid)
  | append (message : PublishedMessage)
  | purge (olderThan : Duration)
  | tick (elapsed : Nat)

/- The one owner whose batch a step moves. -/
def Action.owner : Action → Option Uuid
  | .claim owner _ _ _ => some owner
  | .database owner _ _ => some owner
  | .publish owner => some owner
  | .answer owner _ => some owner
  | .crash owner => some owner
  | _ => none

def Action.purges : Action → Bool
  | .purge _ => true
  | _ => false

section Drain

variable [External]

/- Serialize and re-validate; an error is the text the row is parked with. -/
def OutboxRecord.prepare (record : OutboxRecord) : Except String (List UInt8) := do
  let bytes ← External.toVec record.payload
  (validateForPublish record.subject bytes.length).mapError MessagingError.toString
  return bytes

def recordFailure (relay : OutboxPublisher) (table : List OutboxRow) (now : Timestamp)
    (record : OutboxRecord) (owner : Uuid) (error : String) : List OutboxRow :=
  if saturateI32 record.attempts ≥ relay.maxAttempts then
    (markFailed table record.id owner error).1
  else (reschedulePublish table now record.id owner error).1

/- The database call a phase is waiting on: its effect, where the drain goes
when it succeeds and when it fails, and how often it counts a lost lease. -/
structure Call where
  table : List OutboxRow
  next : Phase
  onError : MessagingError → Phase
  events : List Event
  lost : Nat

def Batch.call (batch : Batch) (table : List OutboxRow) (now : Timestamp) (owner : Uuid)
    (at_ : Timestamp) : Option Call :=
  match batch.phase with
  | .row record rest published =>
    match record.prepare with
    | .error error => some {
        table := (markFailed table record.id owner error).1
        next := .loop rest published
        onError := fun e => .unwind e none
        events := []
        lost := 0 }
    | .ok bytes =>
      if claimStillHeld table now record.id owner then some {
        table := table
        next := .offer bytes record rest published
        onError := fun e => .unwind e none
        events := []
        lost := 0 }
      else some {
        table := table
        next := .done (.ok published)
        onError := fun e => .unwind e none
        events := [.lostLease owner record]
        lost := 1 }
  | .mark record rest published =>
    if (markPublished table record.id owner at_).2 then some {
      table := (markPublished table record.id owner at_).1
      next := .loop rest (published + 1)
      onError := fun e => .unwind e (some record)
      events := [.marked owner record true]
      lost := 0 }
    else some {
      table := (markPublished table record.id owner at_).1
      next := .loop rest published
      onError := fun e => .unwind e (some record)
      events := [.marked owner record false, .lostLease owner record]
      lost := 1 }
  | .fail record error published => some {
      table := recordFailure batch.relay table now record owner error.toString
      next := .release published
      onError := fun e => .unwind e (some record)
      events := []
      lost := 0 }
  | .release published => some {
      table := (releaseOutboxClaims table owner).1
      next := .done (.ok published)
      onError := fun e => .unwind e none
      events := []
      lost := 0 }
  | .unwind error _ => some {
      table := (releaseOutboxClaims table owner).1
      next := .done (.error error)
      onError := fun _ => .done (.error error)
      events := []
      lost := 0 }
  | _ => none

def System.withBatch (s : System) (owner : Uuid) (batch : Batch) : System :=
  { s with batches := Function.update s.batches owner (some batch) }

def System.enqueue (s : System) (record : OutboxRecord) (startedAt : Timestamp) : Option System :=
  if startedAt ≤ s.now then
    match insertOutboxRow s.table startedAt record with
    | .error _ => some s
    | .ok table => some { s with
        table := table
        trace := s.trace ++
          (if s.table.any (fun row => row.toStaged.conflicts record.toStaged) then []
          else [.staged record.toStaged]) }
  else none

def System.claim (s : System) (owner : Uuid) (relay : OutboxPublisher) (plan : Plan)
    (reply : Reply) : Option System :=
  match s.batches owner with
  | some _ => none
  | none =>
    match claimPendingOutbox s.table s.now owner relay.claimTtl relay.batchSize plan, reply with
    | .error error, _ => some (s.withBatch owner ⟨relay, [], .done (.error error)⟩)
    | .ok (table, records), .ok =>
      some ({ s with table := table }.withBatch owner ⟨relay, records, .loop records 0⟩)
    | .ok _, .failed error =>
      some (s.withBatch owner ⟨relay, [], .done (.error (.database error))⟩)
    | .ok (table, _), .lost error =>
      some ({ s with table := table }.withBatch owner
        ⟨relay, [], .done (.error (.database error))⟩)

def System.database (s : System) (owner : Uuid) (reply : Reply) (at_ : Timestamp) :
    Option System :=
  (s.batches owner).bind fun batch => (batch.call s.table s.now owner at_).map fun call =>
    match reply with
    | .ok => { s.withBatch owner { batch with phase := call.next } with
        table := call.table
        lostLeasePublishes := s.lostLeasePublishes + call.lost
        trace := s.trace ++ call.events }
    | .failed error => s.withBatch owner { batch with phase := call.onError (.database error) }
    | .lost error => { s.withBatch owner { batch with phase := call.onError (.database error) } with
        table := call.table }

def OutboxRecord.message (record : OutboxRecord) (bytes : List UInt8) : PublishedMessage :=
  ⟨record.subject, record.dedupId, bytes⟩

def System.publish (s : System) (owner : Uuid) : Option System :=
  (s.batches owner).bind fun batch =>
    match batch.phase with
    | .offer bytes record rest published =>
      some { s.withBatch owner { batch with phase := .publishing record rest published } with
        sent := s.sent ++ [record.message bytes]
        trace := s.trace ++ [.offered owner record] }
    | _ => none

def System.stored (s : System) (dedupId : String) : Bool :=
  s.log.any (fun entry => entry.message.dedupId == dedupId)

/- `Ok` is the broker's acknowledgement: it holds a message with the id. -/
def System.answer (s : System) (owner : Uuid) (result : Except MessagingError Unit) :
    Option System :=
  (s.batches owner).bind fun batch =>
    match batch.phase, result with
    | .publishing record rest published, .ok () =>
      if s.stored record.dedupId then
        some { s.withBatch owner { batch with phase := .mark record rest published } with
          trace := s.trace ++ [.acknowledged owner record] }
      else none
    | .publishing record _ published, .error error =>
      some (s.withBatch owner { batch with phase := .fail record error published })
    | _, _ => none

def System.crash (s : System) (owner : Uuid) : Option System :=
  (s.batches owner).bind fun batch =>
    if batch.phase.ended then none else some (s.withBatch owner { batch with phase := .crashed })

/- The broker may store a message it was sent at any later time, and again. -/
def System.append (s : System) (message : PublishedMessage) : Option System :=
  if message ∈ s.sent then some { s with log := s.log ++ [⟨message, s.now⟩] } else none

def System.purge (s : System) (olderThan : Duration) : System :=
  match purgePublishedOutbox s.table s.now olderThan with
  | .error _ => s
  | .ok (table, _) => { s with table := table }

def System.step (s : System) : Action → Option System
  | .enqueue record startedAt => s.enqueue record startedAt
  | .claim owner relay plan reply => s.claim owner relay plan reply
  | .database owner reply at_ => s.database owner reply at_
  | .publish owner => s.publish owner
  | .answer owner result => s.answer owner result
  | .crash owner => s.crash owner
  | .append message => s.append message
  | .purge olderThan => some (s.purge olderThan)
  | .tick elapsed => some { s with now := s.now + elapsed }

end Drain

/- A small world for worked runs: two rows outside any tenant, with the payload
`null` and the digests of their preimages. -/

namespace Sample

@[reducible] def external : External where
  toVec value := match value with
    | .null => .ok [110, 117, 108, 108]
    | _ => .error "not sampled"
  parseUuid _ := false
  sha256 preimage :=
    if preimage.getLast? = some 49 then
      [146, 182, 160, 208, 225, 16, 18, 216, 133, 124, 187, 214, 188, 28, 156, 224,
        9, 247, 107, 35, 178, 42, 12, 136, 130, 86, 173, 148, 159, 143, 108, 18]
    else
      [197, 123, 38, 52, 192, 158, 216, 65, 143, 59, 41, 4, 66, 166, 119, 86,
        117, 214, 82, 135, 76, 130, 85, 126, 166, 177, 190, 119, 94, 215, 88, 70]
  debug text := "\"" ++ text ++ "\""

attribute [local instance] external

def order1 : OutboxRecord := .pending 1 "fiducia.job.created.v1" "order-1" .null 0

def order2 : OutboxRecord := .pending 2 "fiducia.job.created.v1" "order-2" .null 1

def message (record : OutboxRecord) : PublishedMessage := record.message [110, 117, 108, 108]

/- No row is locked and ties are left as they are. -/
def plan : Plan := ⟨fun _ => false, fun _ => 0⟩

end Sample

end FiduciaMessaging
