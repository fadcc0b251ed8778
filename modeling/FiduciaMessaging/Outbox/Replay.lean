import FiduciaMessaging.Outbox.Drainers
import FiduciaMessaging.Foundations.FirstWrite
import Mathlib.Data.Finset.Insert

/-! The transport-agnostic relay by itself: what it calls and reports on an arbitrary batch,
and what replays of a batch leave in a publisher that deduplicates. -/
namespace FiduciaMessaging

open FirstWrite

/-- The state of a `RecordingPublisher`. -/
structure RecordingState where
  published : List PublishedMessage
  seen : Finset String
  deriving DecidableEq

namespace RecordingPublisher

def new : RecordingState := ⟨[], ∅⟩

/-- A repeated dedup id is a no-op, and a success for the caller. -/
def publish : Publisher RecordingState := fun state message =>
  if message.dedupId ∈ state.seen then (state, .ok ())
  else (⟨state.published ++ [message], insert message.dedupId state.seen⟩, .ok ())

def len (state : RecordingState) : Nat := state.published.length

def isEmpty (state : RecordingState) : Bool := len state == 0

def contains (state : RecordingState) (dedupId : String) : Bool := decide (dedupId ∈ state.seen)

end RecordingPublisher

/- The publisher after these calls. -/
def Publisher.after {P : Type} (publish : Publisher P) (p : P) (messages : List PublishedMessage) :
    P :=
  messages.foldl (fun p message => (publish p message).1) p

/- A recorder that has had these publishes. -/
def recorded (messages : List PublishedMessage) : RecordingState :=
  Publisher.after RecordingPublisher.publish RecordingPublisher.new messages

section Relay

variable [External] {P : Type} {publish : Publisher P} {record : OutboxRecord}
  {batch : List OutboxRecord}

/- What may go to the broker for a row: its subject is canonical and its payload fits. -/
def OutboxRecord.deliverable (record : OutboxRecord) : Option PublishedMessage :=
  match External.toVec record.payload with
  | .ok bytes =>
    if (Subject.parse record.subject).isOk ∧ bytes.length ≤ maxMessageBytes then
      some (record.message bytes)
    else none
  | .error _ => none

def deliverables (batch : List OutboxRecord) : List PublishedMessage :=
  batch.filterMap OutboxRecord.deliverable

theorem validateForPublish_ok {subject : String} {payloadLen : Nat} :
    validateForPublish subject payloadLen = .ok () ↔
      (Subject.parse subject).isOk = true ∧ payloadLen ≤ maxMessageBytes := by
  unfold validateForPublish
  cases parsed : Subject.parse subject with
  | error e => simp [Except.isOk, Except.toBool]
  | ok s =>
    by_cases large : payloadLen > maxMessageBytes
    · simp [Except.isOk, Except.toBool, large, Nat.not_le.mpr large]
    · simp [Except.isOk, Except.toBool, large, Nat.not_lt.mp large]

/-- What the relay hands over is what `validate_for_publish` lets through. -/
theorem deliverable_prepare :
    record.deliverable = record.prepare.toOption.map record.message := by
  unfold OutboxRecord.deliverable OutboxRecord.prepare
  cases serialized : External.toVec record.payload with
  | error e => rfl
  | ok bytes =>
    by_cases accepted : validateForPublish record.subject bytes.length = .ok ()
    · simp only [if_pos (validateForPublish_ok.mp accepted), accepted, bind, Except.bind,
        Except.mapError, pure, Except.pure, Except.toOption, Option.map_some]
    · have refused := mt validateForPublish_ok.mpr accepted
      simp only [if_neg refused]
      cases checked : validateForPublish record.subject bytes.length with
      | ok u => exact absurd checked accepted
      | error e =>
        simp only [checked, bind, Except.bind, Except.mapError, Except.toOption, Option.map_none]

/-- One row of a drain: refused by validation, or handed over and answered. -/
theorem drain_cons (publish : Publisher P) (p : P) (record : OutboxRecord)
    (rest : List OutboxRecord) :
    (∃ error, record.deliverable = none ∧ Relay.drain publish p (record :: rest) =
      (Relay.drain publish p rest).err record.id error []) ∨
    ∃ message, record.deliverable = some message ∧
      (Relay.drain publish p (record :: rest) =
          (Relay.drain publish (publish p message).1 rest).ok record.id message ∨
        ∃ error, Relay.drain publish p (record :: rest) =
          (Relay.drain publish (publish p message).1 rest).err record.id error [message]) := by
  rw [deliverable_prepare, Relay.drain]
  cases ready : record.prepare with
  | error error => exact .inl ⟨error, rfl, rfl⟩
  | ok bytes =>
    refine .inr ⟨record.message bytes, rfl, ?_⟩
    simp only
    cases answer : publish p (record.message bytes) with
    | mk p' result =>
      cases result with
      | ok u => exact .inl rfl
      | error e => exact .inr ⟨e.toString, rfl⟩

theorem drain_calls (publish : Publisher P) (p : P) (batch : List OutboxRecord) :
    (Relay.drain publish p batch).calls = deliverables batch ∧
      (Relay.drain publish p batch).publisher = publish.after p (deliverables batch) := by
  induction batch generalizing p with
  | nil => exact ⟨rfl, rfl⟩
  | cons record rest ih =>
    obtain ⟨error, none_, same⟩ | ⟨message, some_, same | ⟨error, same⟩⟩ :=
      drain_cons publish p record rest
    · rw [same, deliverables, List.filterMap_cons_none none_]
      exact ih p
    · obtain ⟨calls, state⟩ := ih (publish p message).1
      rw [same, deliverables, List.filterMap_cons_some some_]
      exact ⟨congrArg (message :: ·) calls, state⟩
    · obtain ⟨calls, state⟩ := ih (publish p message).1
      rw [same, deliverables, List.filterMap_cons_some some_]
      exact ⟨congrArg (message :: ·) calls, state⟩

/- A verdict for each row in batch order: published, or failed with a text. -/
def RelayOutcome.of (batch : List OutboxRecord) (verdicts : List (Option String)) :
    RelayOutcome where
  published := (batch.zip verdicts).filterMap fun judged =>
    if judged.2.isNone then some judged.1.id else none
  failed := (batch.zip verdicts).filterMap fun judged => judged.2.map (Prod.mk judged.1.id)

/-- Every row of the batch is reported once, in one of the two lists. -/
theorem drain_accounts (publish : Publisher P) (p : P) (batch : List OutboxRecord) :
    ∃ verdicts, verdicts.length = batch.length ∧
      (Relay.drain publish p batch).outcome = .of batch verdicts := by
  induction batch generalizing p with
  | nil => exact ⟨[], rfl, rfl⟩
  | cons record rest ih =>
    obtain ⟨error, _, same⟩ | ⟨message, _, same | ⟨error, same⟩⟩ :=
      drain_cons publish p record rest
    · obtain ⟨verdicts, length, outcome⟩ := ih p
      refine ⟨some error :: verdicts, congrArg (· + 1) length, ?_⟩
      rw [same, Relayed.err, outcome]
      rfl
    · obtain ⟨verdicts, length, outcome⟩ := ih (publish p message).1
      refine ⟨none :: verdicts, congrArg (· + 1) length, ?_⟩
      rw [same, Relayed.ok, outcome]
      rfl
    · obtain ⟨verdicts, length, outcome⟩ := ih (publish p message).1
      refine ⟨some error :: verdicts, congrArg (· + 1) length, ?_⟩
      rw [same, Relayed.err, outcome]
      rfl

end Relay

/- The recorder as a log in which the first message of a dedup id wins. -/
structure RecordingState.Deduplicates (state : RecordingState) : Prop where
  seen : ∀ id, id ∈ state.seen ↔ id ∈ state.published.map (·.dedupId)

section Recorder

variable {state : RecordingState}

theorem deduplicates_new : RecordingPublisher.new.Deduplicates where
  seen := by
    intro id
    rfl

theorem RecordingState.Deduplicates.publish (sound : state.Deduplicates)
    (message : PublishedMessage) :
    (RecordingPublisher.publish state message).1.Deduplicates ∧
      (RecordingPublisher.publish state message).1.published =
        write (·.dedupId) state.published message := by
  unfold RecordingPublisher.publish write
  by_cases known : message.dedupId ∈ state.seen
  · rw [if_pos known, if_pos ((sound.seen _).mp known)]
    exact ⟨sound, rfl⟩
  · rw [if_neg known, if_neg (mt (sound.seen _).mpr known)]
    refine ⟨⟨?_⟩, rfl⟩
    intro id
    rw [Finset.mem_insert, List.map_append, List.mem_append, sound.seen, List.map_singleton,
      List.mem_singleton, or_comm]

theorem RecordingState.Deduplicates.after (sound : state.Deduplicates)
    (messages : List PublishedMessage) :
    (Publisher.after RecordingPublisher.publish state messages).Deduplicates ∧
      (Publisher.after RecordingPublisher.publish state messages).published =
        writeAll (·.dedupId) state.published messages := by
  induction messages generalizing state with
  | nil => exact ⟨sound, rfl⟩
  | cons message rest ih =>
    obtain ⟨next, grown⟩ := sound.publish message
    obtain ⟨last, log⟩ := ih next
    exact ⟨last, log.trans (congrArg (writeAll (·.dedupId) · rest) grown)⟩

/-- The log determines the state. -/
theorem RecordingState.Deduplicates.ext {other : RecordingState} (sound : state.Deduplicates)
    (sound' : other.Deduplicates) (same : state.published = other.published) : state = other := by
  obtain ⟨log, seen⟩ := state
  obtain ⟨log', seen'⟩ := other
  obtain rfl : log = log' := same
  have equal : seen = seen' := Finset.ext (fun id => (sound.seen id).trans (sound'.seen id).symm)
  rw [equal]

end Recorder

section Replay

variable [External]

/-- `Relay::drain` into a recorder. -/
def RecordingState.drain (state : RecordingState) (batch : List OutboxRecord) : RecordingState :=
  (Relay.drain RecordingPublisher.publish state batch).publisher

theorem RecordingState.Deduplicates.drain {state : RecordingState} (sound : state.Deduplicates)
    (batch : List OutboxRecord) : (state.drain batch).Deduplicates ∧
      (state.drain batch).published =
        writeAll (·.dedupId) state.published (deliverables batch) := by
  rw [RecordingState.drain, (drain_calls _ _ _).2]
  exact sound.after _

theorem RecordingState.Deduplicates.drains {state : RecordingState} (sound : state.Deduplicates)
    (batches : List (List OutboxRecord)) :
    (batches.foldl RecordingState.drain state).Deduplicates ∧
      (batches.foldl RecordingState.drain state).published =
        (batches.map deliverables).foldl (writeAll (·.dedupId)) state.published := by
  induction batches generalizing state with
  | nil => exact ⟨sound, rfl⟩
  | cons batch rest ih =>
    obtain ⟨next, grown⟩ := sound.drain batch
    obtain ⟨last, log⟩ := ih next
    refine ⟨last, log.trans ?_⟩
    rw [grown]
    rfl

/-- Draining beginnings of a batch first, however often, leaves what one drain leaves. -/
theorem drain_replays {state : RecordingState} (sound : state.Deduplicates)
    (batch : List OutboxRecord) (cuts : List Nat) :
    ((cuts.map batch.take).foldl RecordingState.drain state).drain batch = state.drain batch := by
  obtain ⟨cut, log⟩ := sound.drains (cuts.map batch.take)
  obtain ⟨replayed, log'⟩ := cut.drain batch
  obtain ⟨drained, once⟩ := sound.drain batch
  apply replayed.ext drained
  rw [log', log, once]
  apply writeAll_replays
  intro replay member
  simp only [List.map_map, List.mem_map, Function.comp_apply] at member
  obtain ⟨cut, _, rfl⟩ := member
  exact (List.take_prefix cut batch).filterMap _

theorem foldl_writeAll (log : List PublishedMessage) (batches : List (List OutboxRecord)) :
    (batches.map deliverables).foldl (writeAll (·.dedupId)) log =
      writeAll (·.dedupId) log (deliverables batches.flatten) := by
  induction batches generalizing log with
  | nil => rfl
  | cons batch rest ih =>
    rw [List.map_cons, List.foldl_cons, ih, List.flatten_cons, deliverables, deliverables,
      deliverables, List.filterMap_append, writeAll_append]

/-- A drain hands over the valid rows in batch order and reports every row once. Into a
recorder, a batch may be replayed from any of its beginnings, and the log of any drains holds
for every dedup id of a valid row the first such row's message. -/
theorem drain_replay_safe :
    (∀ {P : Type} (publish : Publisher P) (p : P) (batch : List OutboxRecord),
      (Relay.drain publish p batch).calls = deliverables batch ∧
      (Relay.drain publish p batch).publisher = publish.after p (deliverables batch) ∧
      ∃ verdicts, verdicts.length = batch.length ∧
        (Relay.drain publish p batch).outcome = .of batch verdicts) ∧
    (∀ (messages : List PublishedMessage) (batch : List OutboxRecord) (cuts : List Nat),
      ((cuts.map batch.take).foldl RecordingState.drain (recorded messages)).drain batch =
        (recorded messages).drain batch) ∧
    ∀ batches : List (List OutboxRecord),
      let log := (batches.foldl RecordingState.drain RecordingPublisher.new).published
      let valid := deliverables batches.flatten
      (log.map (·.dedupId)).Nodup ∧
      (∀ id, id ∈ log.map (·.dedupId) ↔ id ∈ valid.map (·.dedupId)) ∧
      ∀ entry ∈ log, valid.find? (fun message => message.dedupId == entry.dedupId) =
        some entry := by
  refine ⟨?_, ?_, ?_⟩
  · intro P publish p batch
    obtain ⟨calls, state⟩ := drain_calls publish p batch
    exact ⟨calls, state, drain_accounts publish p batch⟩
  · intro messages batch cuts
    exact drain_replays (deduplicates_new.after messages).1 batch cuts
  · intro batches log valid
    have writes : log = writeAll (·.dedupId) [] valid := by
      rw [← foldl_writeAll]
      exact (deduplicates_new.drains batches).2
    rw [writes]
    refine ⟨writeAll_nodup List.nodup_nil, ?_, ?_⟩
    · intro id
      rw [writeAll_keys]
      exact or_iff_right List.not_mem_nil
    · intro entry inside
      rcases writeAll_first inside with old | ⟨_, first⟩
      · cases old
      · exact first

end Replay

section Sample

attribute [local instance] Sample.external

open Sample

/- A first drain stops after one row, and the replay records the second. -/
example : (((recorded []).drain [order1]).drain [order1, order2]).published =
    [message order1, message order2] := by decide +kernel

end Sample

end FiduciaMessaging
