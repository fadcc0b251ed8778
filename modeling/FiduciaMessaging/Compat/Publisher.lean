import FiduciaMessaging.Compat.Guard
import FiduciaMessaging.Outbox.Statements
import FiduciaMessaging.Inbox.Claims

/-! The compat outbox. One transaction is open from the claim of a batch to its last
publish, so what the broker was told stays when the transaction is rolled back. -/
namespace FiduciaMessaging

open RowSet

/-- A row of `message_outbox_compat`. Its count starts at 0 and no statement lowers it. -/
structure CompatRow where
  messageId : Uuid
  tenantId : Uuid
  subject : String
  envelope : List UInt8
  attempts : Int
  availableAt : Timestamp
  publishedAt : Option Timestamp
  lastError : Option String
  createdAt : Timestamp
  counted : 0 ≤ attempts

/-- The table under its primary key. -/
structure CompatTable where
  rows : List CompatRow
  unique : (rows.map (·.messageId)).Nodup

/- Enqueue. -/

def CompatTable.insert (table : CompatTable) (row : CompatRow)
    (free : ∀ other ∈ table.rows, other.messageId ≠ row.messageId) : CompatTable where
  rows := table.rows ++ [row]
  unique := by
    rw [List.map_append]
    apply List.nodup_append'.mpr
    refine ⟨table.unique, List.nodup_singleton _, ?_⟩
    apply List.disjoint_singleton.mpr
    intro used
    obtain ⟨other, inside, same⟩ := List.mem_map.mp used
    exact free other inside same

/-- The inserted row; the other columns take their defaults. -/
def compatEnqueued (messageId tenantId : Uuid) (subject : String) (body : List UInt8)
    (now : Timestamp) : CompatRow where
  messageId := messageId
  tenantId := tenantId
  subject := subject
  envelope := body
  attempts := 0
  availableAt := now
  publishedAt := none
  lastError := none
  createdAt := now
  counted := Int.le_refl 0

/-- `Outbox::enqueue`, given what encoding its envelope gives. -/
def CompatOutbox.enqueue [External] (table : CompatTable) (now : Timestamp) (subject : String)
    (messageId tenantId : Uuid) (encoded : Except CompatEnvelopeError (List UInt8)) :
    Except CompatOutboxError CompatTable := do
  validateCompatPublish subject 0
  let body ← encoded.mapError .envelope
  validateCompatPublish subject body.length
  if free : ∀ other ∈ table.rows,
      other.messageId ≠ (compatEnqueued messageId tenantId subject body now).messageId then
    return table.insert (compatEnqueued messageId tenantId subject body now) free
  else throw (.database "duplicate key value violates unique constraint")

/- The statements of a batch. -/

def CompatRow.due (row : CompatRow) (now : Timestamp) : Bool :=
  row.publishedAt.isNone && decide (row.availableAt ≤ now)

def CompatRow.precedes (plan : Plan) (a b : CompatRow) : Prop :=
  a.createdAt < b.createdAt ∨
    (a.createdAt = b.createdAt ∧ plan.rank a.messageId ≤ plan.rank b.messageId)

instance (plan : Plan) : DecidableRel (CompatRow.precedes plan) := fun a b => inferInstanceAs
  (Decidable (a.createdAt < b.createdAt ∨
    (a.createdAt = b.createdAt ∧ plan.rank a.messageId ≤ plan.rank b.messageId)))

/-- The rows that `COMPAT_CLAIM_SQL` locks, in its order. -/
def compatClaim (table : CompatTable) (now : Timestamp) (limit : Int) (plan : Plan) :
    List CompatRow :=
  ((table.rows.filter (fun row => row.due now && !plan.locked row.messageId)).insertionSort
    (CompatRow.precedes plan)).take limit.toNat

/-- The columns it returns. -/
structure CompatClaimedRow where
  messageId : Uuid
  subject : String
  envelope : List UInt8

def CompatRow.claimed (row : CompatRow) : CompatClaimedRow :=
  ⟨row.messageId, row.subject, row.envelope⟩

/-- `COMPAT_MARK_PUBLISHED_SQL`. -/
def CompatRow.markPublished (row : CompatRow) (now : Timestamp) : CompatRow :=
  { row with publishedAt := some now, attempts := row.attempts + 1, lastError := none,
             counted := Int.add_nonneg row.counted Int.one_nonneg }

/-- `least(interval '5 minutes', interval '1 second' * power(2, least(attempts, 8)))`. -/
def compatBackoff (attempts : Int) : Int := min (300 * second) (second * 2 ^ (min attempts 8).toNat)

/-- `COMPAT_RESCHEDULE_SQL`. -/
def CompatRow.reschedule (row : CompatRow) (now : Timestamp) (error : String) : CompatRow :=
  { row with attempts := row.attempts + 1, lastError := some error,
             availableAt := now + compatBackoff row.attempts,
             counted := Int.add_nonneg row.counted Int.one_nonneg }

/- What the newest of some written versions makes of a row. -/
def written (writes : List CompatRow) (row : CompatRow) : CompatRow :=
  (writes.find? (fun w => w.messageId == row.messageId)).getD row

theorem written_id (writes : List CompatRow) (row : CompatRow) :
    (written writes row).messageId = row.messageId := by
  unfold written
  cases found : writes.find? (fun w => w.messageId == row.messageId) with
  | none => rfl
  | some w =>
    have same := List.find?_some found
    exact eq_of_beq same

/-- A commit makes the written versions the rows. -/
def CompatTable.install (table : CompatTable) (writes : List CompatRow) : CompatTable where
  rows := table.rows.map (written writes)
  unique := by
    have same : ∀ row ∈ table.rows, ((·.messageId) ∘ written writes) row = row.messageId :=
      fun row _ => written_id writes row
    rw [List.map_map, List.map_congr_left same]
    exact table.unique

/- The broker. -/

structure CompatMessage where
  subject : String
  headers : List (String × String)
  payload : List UInt8

def CompatClaimedRow.message (row : CompatClaimedRow) : CompatMessage :=
  ⟨row.subject, [("Nats-Msg-Id", Uuid.hyphenated row.messageId)], row.envelope⟩

/-- A publish and the wait for its acknowledgement, which may depend on all earlier calls. -/
abbrev CompatBroker (P : Type) := P → CompatMessage → P × Except String Unit

/- A message handed to the broker for a row, and the answer. -/
structure Handed where
  messageId : Uuid
  message : CompatMessage
  answer : Except String Unit

/- A batch. -/

structure CompatOutboxPublisher where
  batchSize : Int

def CompatOutboxPublisher.new : CompatOutboxPublisher := ⟨100⟩

/- What one call meets: the time its transaction began, the rows others have locked, the
database calls that fail, and the committed table it commits to, in which others may have
changed any row but those that this call has locked. -/
structure Surroundings (publisher : CompatOutboxPublisher) (table : CompatTable) where
  now : Timestamp
  plan : Plan
  fails : Nat → Option String
  committed : CompatTable
  held : ∀ row ∈ compatClaim table now publisher.batchSize plan, row ∈ committed.rows

/- A call in progress: the database calls made, the versions written, newest first, and what
went to the broker. -/
structure CompatCall (P : Type) where
  calls : Nat
  writes : List CompatRow
  broker : P
  log : List Handed

/- A call that returned: the committed table, and what went to the broker. -/
structure CompatReturn (P : Type) where
  result : Except CompatOutboxError Nat
  table : CompatTable
  broker : P
  log : List Handed

variable {P : Type} {publisher : CompatOutboxPublisher} {table : CompatTable}

/-- The row as the transaction sees it. -/
def CompatCall.current (call : CompatCall P) (table : CompatTable) (id : Uuid) : Option CompatRow :=
  (call.writes ++ table.rows).find? (fun row => row.messageId == id)

/-- One `UPDATE .. WHERE message_id = $1`. Both updates add an attempt, and a count at the top of
its range aborts them. -/
def Surroundings.execute (env : Surroundings publisher table) (call : CompatCall P) (id : Uuid)
    (f : CompatRow → CompatRow) : Except CompatOutboxError (CompatCall P) :=
  match env.fails call.calls with
  | some error => .error (.database error)
  | none =>
    match call.current table id with
    | none => .ok { call with calls := call.calls + 1 }
    | some row =>
      if row.attempts + 1 > i32Max then .error (.database "integer out of range")
      else .ok { call with calls := call.calls + 1, writes := f row :: call.writes }

def CompatCall.publish (call : CompatCall P) (broker : CompatBroker P) (row : CompatClaimedRow) :
    CompatCall P :=
  { call with broker := (broker call.broker row.message).1
              log :=
                call.log ++ [⟨row.messageId, row.message, (broker call.broker row.message).2⟩] }

section Publish

variable [External]

/-- The loop over the claimed rows. -/
def Surroundings.publishRows (env : Surroundings publisher table) (broker : CompatBroker P) :
    List CompatClaimedRow → Nat → CompatCall P → Except CompatOutboxError Nat × CompatCall P
  | [], published, call => (.ok published, call)
  | row :: rest, published, call =>
    match validateCompatPublish row.subject row.envelope.length with
    | .error error =>
      -- a legacy row is put off and never handed over
      match env.execute call row.messageId (fun r => r.reschedule env.now error.toString) with
      | .error e => (.error e, call)
      | .ok call => env.publishRows broker rest published call
    | .ok () =>
      match (broker call.broker row.message).2 with
      | .ok () =>
        match env.execute (call.publish broker row) row.messageId
            (fun r => r.markPublished env.now) with
        | .error e => (.error e, call.publish broker row)
        | .ok call => env.publishRows broker rest (published + 1) call
      | .error error =>
        match env.execute (call.publish broker row) row.messageId
            (fun r => r.reschedule env.now error) with
        | .error e => (.error e, call.publish broker row)
        | .ok call => (.ok published, call)

/- A transaction that ends without a commit. -/
def Surroundings.rollback (env : Surroundings publisher table) (call : CompatCall P)
    (error : CompatOutboxError) : CompatReturn P :=
  ⟨.error error, env.committed, call.broker, call.log⟩

/-- `OutboxPublisher::publish_batch`. The first two database calls are `BEGIN` and the claim,
the last is `COMMIT`. -/
def CompatOutboxPublisher.publishBatch (publisher : CompatOutboxPublisher) (table : CompatTable)
    (env : Surroundings publisher table) (broker : CompatBroker P) (p : P) : CompatReturn P :=
  match env.fails 0 with
  | some error => env.rollback ⟨1, [], p, []⟩ (.database error)
  | none =>
    match env.fails 1 with
    | some error => env.rollback ⟨2, [], p, []⟩ (.database error)
    | none =>
      if publisher.batchSize < 0 then
        env.rollback ⟨2, [], p, []⟩ (.database "LIMIT must not be negative")
      else
        match env.publishRows broker
            ((compatClaim table env.now publisher.batchSize env.plan).map CompatRow.claimed) 0
            ⟨2, [], p, []⟩ with
        | (.error error, call) => env.rollback call error
        | (.ok published, call) =>
          match env.fails call.calls with
          | some error => env.rollback call (.database error)
          | none => ⟨.ok published, env.committed.install call.writes, call.broker, call.log⟩

end Publish

end FiduciaMessaging
