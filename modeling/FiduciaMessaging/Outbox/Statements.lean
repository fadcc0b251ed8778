import FiduciaMessaging.Outbox.Record
import FiduciaMessaging.Foundations.RowSet
import Mathlib.Data.List.Sort

/-! The statements that read and write `message_outbox`. Each is atomic: its
table argument is the committed table when it runs, `now` the database clock. -/
namespace FiduciaMessaging

open RowSet

variable [External]

structure OutboxRow extends Staged where
  status : OutboxStatus
  attempts : Int
  availableAt : Timestamp
  lastError : Option String
  publishedAt : Option Timestamp
  claimOwner : Option Uuid
  claimExpiresAt : Option Timestamp

/-- The largest value of a Postgres `integer`. -/
def i32Max : Int := 2147483647

def i64Max : Nat := 9223372036854775807

def millisecond : Int := 1000

def second : Int := 1000000

/-- Whole milliseconds of a positive duration that fits 64 bits. -/
def positiveMs (duration : Duration) (what : String) : Except MessagingError Int :=
  if 0 < duration.asMillis ∧ duration.asMillis ≤ i64Max then .ok duration.asMillis
  else .error (.database (what ++ " must be positive and finite"))

/- Enqueue. -/

def OutboxRecord.validate (record : OutboxRecord) : Except MessagingError Unit := do
  let bytes ← (External.toVec record.payload).mapError .serialize
  validateForPublish record.subject bytes.length

/-- `i32::try_from(attempts).unwrap_or(i32::MAX)`. -/
def saturateI32 (attempts : UInt32) : Int := min attempts.toNat i32Max

/-- The inserted row; lease and backoff columns take their defaults. -/
def OutboxRecord.row (record : OutboxRecord) (now : Timestamp) : OutboxRow where
  toStaged := record.toStaged
  status := record.status
  attempts := saturateI32 record.attempts
  availableAt := now
  lastError := none
  publishedAt := none
  claimOwner := none
  claimExpiresAt := none

/-- The primary key, `UNIQUE (dedup_id)` and the two partial indexes on the business key. -/
def Staged.conflicts (a b : Staged) : Bool :=
  a.id == b.id || a.dedupId == b.dedupId ||
    (a.tenantId == b.tenantId && a.idempotencyKey == b.idempotencyKey)

def insertOutboxRow (table : List OutboxRow) (now : Timestamp) (record : OutboxRecord) :
    Except MessagingError (List OutboxRow) := do
  record.validate
  return insertUnless (fun row => row.toStaged.conflicts record.toStaged) (record.row now) table

/- Claim. -/

/-- What Postgres is free to choose: the rows other transactions have locked and
the order of rows with equal `created_at`. -/
structure Plan where
  locked : Uuid → Bool
  rank : Uuid → Nat

def OutboxRow.leaseFree (row : OutboxRow) (now : Timestamp) : Bool :=
  match row.claimExpiresAt with
  | none => true
  | some expires => decide (expires ≤ now)

def OutboxRow.claimable (row : OutboxRow) (now : Timestamp) : Bool :=
  row.status == .pending && decide (row.availableAt ≤ now) && row.leaseFree now

def Plan.before (plan : Plan) (a b : OutboxRow) : Prop :=
  a.createdAt < b.createdAt ∨ (a.createdAt = b.createdAt ∧ plan.rank a.id ≤ plan.rank b.id)

instance (plan : Plan) : DecidableRel plan.before := fun a b => inferInstanceAs
  (Decidable (a.createdAt < b.createdAt ∨
    (a.createdAt = b.createdAt ∧ plan.rank a.id ≤ plan.rank b.id)))

/-- `ORDER BY created_at LIMIT $1 FOR UPDATE SKIP LOCKED`. -/
def claimCandidates (table : List OutboxRow) (now : Timestamp) (limit : Int) (plan : Plan) :
    List OutboxRow :=
  ((table.filter (fun row => row.claimable now && !plan.locked row.id)).insertionSort
    plan.before).take limit.toNat

def OutboxRow.leased (row : OutboxRow) (owner : Uuid) (expires : Timestamp) : OutboxRow :=
  { row with attempts := row.attempts + 1, claimOwner := some owner,
             claimExpiresAt := some expires }

/-- `attempts.max(0) as u32`. -/
def OutboxRow.intoRecord (row : OutboxRow) : OutboxRecord where
  toStaged := row.toStaged
  status := row.status
  attempts := UInt32.ofNat row.attempts.toNat

def createdBefore (a b : OutboxRecord) : Prop := a.createdAt ≤ b.createdAt

instance : DecidableRel createdBefore := fun a b =>
  inferInstanceAs (Decidable (a.createdAt ≤ b.createdAt))

/-- Leases up to `limit` due rows. One attempt count at the top of its range
aborts the whole statement. -/
def claimPendingOutbox (table : List OutboxRow) (now : Timestamp) (owner : Uuid)
    (claimTtl : Duration) (limit : Int) (plan : Plan) :
    Except MessagingError (List OutboxRow × List OutboxRecord) := do
  if limit ≤ 0 then throw (.database "outbox claim limit must be positive")
  let claimTtlMs ← positiveMs claimTtl "outbox claim TTL"
  let expires := now + claimTtlMs * millisecond
  let candidates := claimCandidates table now limit plan
  if candidates.any (fun row => row.attempts + 1 > i32Max) then
    throw (.database "integer out of range")
  return (updateWhere (fun row => (candidates.map (·.id)).contains row.id)
      (fun row => row.leased owner expires) table,
    (candidates.map (fun row => (row.leased owner expires).intoRecord)).insertionSort createdBefore)

/- Marks, all conditioned on the owner and not on the lease expiry. -/

def OutboxRow.ownedAs (id owner : Uuid) (row : OutboxRow) : Bool :=
  row.id == id && row.claimOwner == some owner

def OutboxRow.published (row : OutboxRow) (at_ : Timestamp) : OutboxRow :=
  { row with status := .published, publishedAt := some at_, lastError := none,
             claimOwner := none, claimExpiresAt := none }

def markPublished (table : List OutboxRow) (id owner : Uuid) (at_ : Timestamp) :
    List OutboxRow × Bool :=
  (updateWhere (OutboxRow.ownedAs id owner) (fun row => row.published at_) table,
    affected (OutboxRow.ownedAs id owner) table == 1)

/-- The probe made before a row is handed to the broker: a live lease of this owner. -/
def claimStillHeld (table : List OutboxRow) (now : Timestamp) (id owner : Uuid) : Bool :=
  table.any (fun row => row.ownedAs id owner && row.claimExpiresAt.any (fun e => decide (now < e)))

def OutboxRow.parked (row : OutboxRow) (error : String) : OutboxRow :=
  { row with status := .failed, lastError := some error, claimOwner := none,
             claimExpiresAt := none }

def markFailed (table : List OutboxRow) (id owner : Uuid) (error : String) :
    List OutboxRow × Bool :=
  (updateWhere (OutboxRow.ownedAs id owner) (fun row => row.parked error) table,
    affected (OutboxRow.ownedAs id owner) table == 1)

/-- `least(interval '5 minutes', interval '1 second' * power(2, least(greatest(attempts - 1, 0),
8)))`. -/
def publishBackoff (attempts : Int) : Int :=
  min (300 * second) (second * 2 ^ min (max (attempts - 1) 0).toNat 8)

def OutboxRow.rescheduled (row : OutboxRow) (now : Timestamp) (error : String) : OutboxRow :=
  { row with lastError := some error, availableAt := now + publishBackoff row.attempts,
             claimOwner := none, claimExpiresAt := none }

def OutboxRow.pendingAs (id owner : Uuid) (row : OutboxRow) : Bool :=
  row.ownedAs id owner && row.status == .pending

def reschedulePublish (table : List OutboxRow) (now : Timestamp) (id owner : Uuid)
    (error : String) : List OutboxRow × Bool :=
  (updateWhere (OutboxRow.pendingAs id owner) (fun row => row.rescheduled now error) table,
    affected (OutboxRow.pendingAs id owner) table == 1)

def OutboxRow.pendingOf (owner : Uuid) (row : OutboxRow) : Bool :=
  row.status == .pending && row.claimOwner == some owner

def OutboxRow.released (row : OutboxRow) : OutboxRow :=
  { row with claimOwner := none, claimExpiresAt := none, attempts := max (row.attempts - 1) 0 }

def releaseOutboxClaims (table : List OutboxRow) (owner : Uuid) : List OutboxRow × Nat :=
  (updateWhere (OutboxRow.pendingOf owner) OutboxRow.released table,
    affected (OutboxRow.pendingOf owner) table)

/- Retention. -/

def OutboxRow.purgeable (row : OutboxRow) (cutoff : Timestamp) : Bool :=
  row.status == .published && row.publishedAt.any (fun at_ => decide (at_ < cutoff))

def purgePublishedOutbox (table : List OutboxRow) (now : Timestamp) (olderThan : Duration) :
    Except MessagingError (List OutboxRow × Nat) := do
  let cutoffMs ← positiveMs olderThan "retention age"
  let cutoff := now - cutoffMs * millisecond
  return (deleteWhere (fun row => row.purgeable cutoff) table,
    affected (fun row => row.purgeable cutoff) table)

end FiduciaMessaging
