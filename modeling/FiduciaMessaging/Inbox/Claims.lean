import FiduciaMessaging.Outbox.Statements
import FiduciaMessaging.Foundations.Runs
import FiduciaMessaging.Foundations.Transactions
import Mathlib.Logic.Function.Basic

/-! The per-consumer inbox as a machine. `begin` is two statements, so a call
rests between its insert and its read-back while other transactions and the
retention purge run. Transactions are at read committed, the default level. -/
namespace FiduciaMessaging

open Transactions

inductive InboxDecision where
  | process | duplicate
  deriving DecidableEq

inductive InboxError where
  | invalidConsumer
  | tenantMismatch (messageId : Uuid) (claimedBy envelopeTenant : Option Uuid)
  | database (error : String)
  deriving DecidableEq

/- The hyphenated form, in `{}` and `{:?}` alike. -/
def Uuid.hyphenated (id : Uuid) : String :=
  let digits := (bigEndian 16 id.toNat).flatMap hexByte
  String.ofList (digits.take 8 ++ '-' :: (digits.drop 8).take 4 ++ '-' :: (digits.drop 12).take 4 ++
    '-' :: (digits.drop 16).take 4 ++ '-' :: digits.drop 20)

def debugTenant : Option Uuid → String
  | some tenant => "Some(" ++ Uuid.hyphenated tenant ++ ")"
  | none => "None"

def InboxError.toString : InboxError → String
  | .invalidConsumer => "consumer must be non-empty"
  | .tenantMismatch messageId claimedBy envelopeTenant =>
    "inbox claim for message " ++ Uuid.hyphenated messageId ++ " is held by tenant " ++
      debugTenant claimedBy ++ ", not the envelope's tenant " ++ debugTenant envelopeTenant
  | .database error => error

def decideFreshClaim (rowsInserted : Nat) : Option InboxDecision :=
  if rowsInserted = 1 then some .process else none

def decideConflictingClaim (existingTenant : Option (Option Uuid)) (messageId : Uuid)
    (envelopeTenant : Option Uuid) : Except InboxError InboxDecision :=
  match existingTenant with
  | some existing =>
    if existing = envelopeTenant then .ok .duplicate
    else .error (.tenantMismatch messageId existing envelopeTenant)
  -- The row vanished between the insert and the read.
  | none => .ok .duplicate

/- A row of `message_inbox_consumer`; `processed_at` is the data of its version. -/
structure Claim where
  consumer : String
  messageId : Uuid
  tenantId : Option Uuid
  receivedAt : Timestamp
  deriving DecidableEq

/- The primary key. -/
def Claim.key (claim : Claim) : String × Uuid := (claim.consumer, claim.messageId)

/- A transaction; `reading` is a `begin` between its two statements. -/
inductive Session (T : Type) where
  | active (startedAt : Timestamp) (reading : Option (String × MessageEnvelope T))
  | committed
  | rolledBack
  deriving DecidableEq

inductive InboxEvent (T : Type) where
  | claimed (tx : Nat) (claim : Claim)
  | conflicted (tx : Nat) (consumer : String) (envelope : MessageEnvelope T)
  | returned (tx : Nat) (consumer : String) (envelope : MessageEnvelope T)
      (result : Except InboxError InboxDecision)
  | committed (tx : Nat)
  | purged (claim : Claim)
  deriving DecidableEq

structure PgInbox (T : Type) where
  now : Timestamp
  claims : List (Version Claim (Option Timestamp) Nat)
  sessions : Nat → Option (Session T)
  trace : List (InboxEvent T)

def PgInbox.initial (T : Type) (now : Timestamp) : PgInbox T where
  now := now
  claims := []
  sessions := fun _ => none
  trace := []

/- A `fault` is a database error of the statement, which aborts its transaction. -/
inductive InboxAction (T : Type) where
  | start (tx : Nat)
  | beginInsert (tx : Nat) (consumer : String) (envelope : MessageEnvelope T)
    (fault : Option String)
  | beginReadBack (tx : Nat) (fault : Option String)
  | markProcessed (tx : Nat) (consumer : String) (messageId : Uuid)
  | commit (tx : Nat)
  | rollback (tx : Nat)
  | purge (olderThan : Duration)
  | tick (elapsed : Nat)

variable {T : Type}

def InboxAction.purges : InboxAction T → Bool
  | .purge _ => true
  | _ => false

namespace PgInbox

def withSession (s : PgInbox T) (tx : Nat) (session : Session T) : PgInbox T :=
  { s with sessions := Function.update s.sessions tx (some session) }

def log (s : PgInbox T) (events : List (InboxEvent T)) : PgInbox T :=
  { s with trace := s.trace ++ events }

def start (s : PgInbox T) (tx : Nat) : Option (PgInbox T) :=
  match s.sessions tx with
  | none => some (s.withSession tx (.active s.now none))
  | some _ => none

def abort (s : PgInbox T) (tx : Nat) : PgInbox T :=
  { s.withSession tx .rolledBack with claims := Transactions.rollback tx s.claims }

def beginInsert (s : PgInbox T) (tx : Nat) (consumer : String) (envelope : MessageEnvelope T)
    (fault : Option String) : Option (PgInbox T) :=
  match s.sessions tx with
  | some (.active startedAt none) =>
    if Text.isBlank consumer.toList then
      some (s.log [.returned tx consumer envelope (.error .invalidConsumer)])
    else
      match fault with
      | some error =>
        some ((s.abort tx).log [.returned tx consumer envelope (.error (.database error))])
      | none =>
        let claim : Claim := ⟨consumer, envelope.messageId, envelope.tenantId, startedAt⟩
        (insert Claim.key tx claim none s.claims).map fun (claims, rowsInserted) =>
          match decideFreshClaim rowsInserted with
          | some decision => { s with claims := claims }.log
              [.claimed tx claim, .returned tx consumer envelope (.ok decision)]
          | none => ({ s with claims := claims }.withSession tx
              (.active startedAt (some (consumer, envelope)))).log
                [.conflicted tx consumer envelope]
  | _ => none

def findById (s : PgInbox T) (tx : Nat) (key : String × Uuid) : Option Claim :=
  select (fun claim _ => claim.key == key) tx s.claims

def beginReadBack (s : PgInbox T) (tx : Nat) (fault : Option String) : Option (PgInbox T) :=
  match s.sessions tx with
  | some (.active startedAt (some (consumer, envelope))) =>
    match fault with
    | some error =>
      some ((s.abort tx).log [.returned tx consumer envelope (.error (.database error))])
    | none =>
      let existing := s.findById tx (consumer, envelope.messageId)
      some ((s.withSession tx (.active startedAt none)).log [.returned tx consumer envelope
        (decideConflictingClaim (existing.map (·.tenantId)) envelope.messageId envelope.tenantId)])
  | _ => none

/- A stamp that matches no claim is a no-op. -/
def markProcessed (s : PgInbox T) (tx : Nat) (consumer : String) (messageId : Uuid) :
    Option (PgInbox T) :=
  match s.sessions tx with
  | some (.active startedAt none) =>
    (update (fun claim _ => claim.key == (consumer, messageId)) (fun _ => some startedAt) tx
      s.claims).map fun (claims, _) => { s with claims := claims }
  | _ => none

def commit (s : PgInbox T) (tx : Nat) : Option (PgInbox T) :=
  match s.sessions tx with
  | some (.active _ _) => some ({ s.withSession tx .committed with
      claims := Transactions.commit tx s.claims }.log [.committed tx])
  | _ => none

def rollback (s : PgInbox T) (tx : Nat) : Option (PgInbox T) :=
  match s.sessions tx with
  | some (.active _ _) => some (s.abort tx)
  | _ => none

def purgeable (cutoff : Timestamp) (_ : Claim) (processedAt : Option Timestamp) : Bool :=
  processedAt.any (fun at_ => decide (at_ < cutoff))

def purgeProcessedConsumerInbox (s : PgInbox T) (olderThan : Duration) : Option (PgInbox T) :=
  match positiveMs olderThan "retention age" with
  | .error _ => some s
  | .ok cutoffMs =>
    let cutoff := s.now - cutoffMs * millisecond
    (delete (purgeable cutoff) s.claims).map fun claims => { s with claims := claims }.log
      ((s.claims.filter (fun (v : Version _ _ _) =>
        v.committed && purgeable cutoff v.row v.data)).map
        (fun (v : Version _ _ _) => .purged v.row))

def step (s : PgInbox T) : InboxAction T → Option (PgInbox T)
  | .start tx => s.start tx
  | .beginInsert tx consumer envelope fault => s.beginInsert tx consumer envelope fault
  | .beginReadBack tx fault => s.beginReadBack tx fault
  | .markProcessed tx consumer messageId => s.markProcessed tx consumer messageId
  | .commit tx => s.commit tx
  | .rollback tx => s.rollback tx
  | .purge olderThan => s.purgeProcessedConsumerInbox olderThan
  | .tick elapsed => some { s with now := s.now + elapsed }

end PgInbox

/- The producer-chosen message id 42, in a tenant's name. -/
def Sample.tenantOrder (tenant : Uuid) : MessageEnvelope Unit :=
  (MessageEnvelope.newAt 0 42 "order.created" () "order-1").withTenant tenant

end FiduciaMessaging
