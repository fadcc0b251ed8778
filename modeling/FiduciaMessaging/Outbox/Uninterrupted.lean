import FiduciaMessaging.Outbox.Drainers

/-! The drainer's loop as a function against the same loop in the machine: with every
database call answered and nobody else at work, the machine runs as the function computes. -/
namespace FiduciaMessaging

open Runs

/- A batch with every call answered; time passes and the broker stores what it was sent. -/
def Action.Uninterrupted (owner : Uuid) : Action → Prop
  | .database other reply _ => other = owner ∧ reply = .ok
  | .publish other => other = owner
  | .answer other _ => other = owner
  | .append _ => True
  | .tick _ => True
  | _ => False

section Uninterrupted

variable [External]

/- A batch at a phase, with the table and the calls made so far. -/
structure System.Holds (s : System) (owner : Uuid) (batch : Batch) (table : List OutboxRow)
    (sent : List PublishedMessage) : Prop where
  batch : s.batches owner = some batch
  table : s.table = table
  sent : s.sent = sent

/- One batch goes from here to there undisturbed. -/
def System.Runs (owner : Uuid) (s t : System) : Prop :=
  Reaches System.step (fun _ a => a.Uninterrupted owner) s t

variable {s t : System} {owner : Uuid} {batch : Batch} {relay : OutboxPublisher}
  {leased rest : List OutboxRecord} {table : List OutboxRow} {sent : List PublishedMessage}
  {record : OutboxRecord} {bytes : List UInt8} {published : Nat}

theorem runs_step (a : Action) (allowed : a.Uninterrupted owner)
    (taken : s.step a = some t) : System.Runs owner s t := Reaches.refl.tail allowed taken

theorem System.Holds.waits (holds : s.Holds owner batch table sent) {at_ : Timestamp}
    (later : s.now ≤ at_) : ∃ t, System.Runs owner s t ∧ t.Holds owner batch table sent ∧
      t.now = at_ := by
  have elapsed : s.now + ((at_ - s.now).toNat : Int) = at_ := by
    unfold Timestamp at *
    omega
  refine ⟨{ s with now := s.now + ((at_ - s.now).toNat : Int) }, ?_,
    ⟨holds.1, holds.2, holds.3⟩, elapsed⟩
  exact runs_step (.tick (at_ - s.now).toNat) trivial rfl

/-- An answered call does what the phase says. -/
theorem System.Holds.calls (holds : s.Holds owner batch table sent) (at_ : Timestamp) (next : Phase)
    (after : List OutboxRow) (waits : (batch.call table s.now owner at_).map
      (fun call => (call.next, call.table)) = some (next, after)) :
    ∃ t, System.Runs owner s t ∧ t.Holds owner { batch with phase := next } after sent ∧
      t.now = s.now := by
  obtain ⟨call, found, ends⟩ := Option.map_eq_some_iff.mp waits
  obtain ⟨rfl, rfl⟩ := Prod.mk.inj ends
  have taken : s.step (.database owner .ok at_) =
      some { s.withBatch owner { batch with phase := call.next } with
        table := call.table
        lostLeasePublishes := s.lostLeasePublishes + call.lost
        trace := s.trace ++ call.events } := by
    simp only [System.step, System.database, holds.batch, holds.table, Option.bind_some, found,
      Option.map_some]
  refine ⟨_, runs_step (.database owner .ok at_) ⟨rfl, rfl⟩ taken,
    ⟨?_, rfl, holds.sent⟩, rfl⟩
  simp [System.withBatch]

theorem System.Holds.offers
    (holds : s.Holds owner ⟨relay, leased, .offer bytes record rest published⟩ table sent) :
    ∃ t, System.Runs owner s t ∧
      t.Holds owner ⟨relay, leased, .publishing record rest published⟩ table
        (sent ++ [record.message bytes]) ∧ t.now = s.now := by
  have taken : s.step (.publish owner) =
      some { s.withBatch owner ⟨relay, leased, .publishing record rest published⟩ with
        sent := s.sent ++ [record.message bytes]
        trace := s.trace ++ [.offered owner record] } := by
    simp only [System.step, System.publish, holds.batch, Option.bind_some]
  refine ⟨_, runs_step (.publish owner) rfl taken, ⟨?_, holds.table, ?_⟩, rfl⟩
  · simp [System.withBatch]
  · exact congrArg (· ++ [record.message bytes]) holds.sent

/-- The broker stores the message it was sent and acknowledges it. -/
theorem System.Holds.acknowledged
    (holds : s.Holds owner ⟨relay, leased, .publishing record rest published⟩ table sent)
    (offered : record.message bytes ∈ sent) :
    ∃ t, System.Runs owner s t ∧
      t.Holds owner ⟨relay, leased, .mark record rest published⟩ table sent ∧
        t.now = s.now := by
  let kept : System := { s with log := s.log ++ [⟨record.message bytes, s.now⟩] }
  have stores : s.step (.append (record.message bytes)) = some kept := by
    simp only [System.step, System.append, holds.sent, if_pos offered, kept]
  have known : kept.stored record.dedupId = true := by
    simp [System.stored, OutboxRecord.message, kept]
  have taken : kept.step (.answer owner (.ok ())) =
      some { kept.withBatch owner ⟨relay, leased, .mark record rest published⟩ with
        trace := kept.trace ++ [.acknowledged owner record] } := by
    have here : kept.batches owner = some ⟨relay, leased, .publishing record rest published⟩ :=
      holds.batch
    simp only [System.step, System.answer, here, Option.bind_some, known, if_true]
  have stays : System.Runs owner s kept := runs_step (.append (record.message bytes)) trivial stores
  refine ⟨_, stays.trans (runs_step (.answer owner (.ok ())) rfl taken),
    ⟨?_, holds.table, holds.sent⟩, rfl⟩
  simp [System.withBatch]

theorem System.Holds.refused
    (holds : s.Holds owner ⟨relay, leased, .publishing record rest published⟩ table sent)
    (error : MessagingError) : ∃ t, System.Runs owner s t ∧
      t.Holds owner ⟨relay, leased, .fail record error published⟩ table sent ∧
        t.now = s.now := by
  have taken : s.step (.answer owner (.error error)) =
      some (s.withBatch owner ⟨relay, leased, .fail record error published⟩) := by
    simp only [System.step, System.answer, holds.batch, Option.bind_some]
  refine ⟨_, runs_step (.answer owner (.error error)) rfl taken,
    ⟨?_, holds.table, holds.sent⟩, rfl⟩
  simp [System.withBatch]

/-- From the head of the loop the machine, undisturbed, ends the batch with the table, the calls
and the count of `drain_claimed`. -/
theorem drainClaimed_runs {P : Type} (publish : Publisher P) {clock : Clock}
    (forward : ∀ k, clock.now k ≤ clock.now (k + 1)) {rows : List OutboxRecord} (n : Nat)
    (p : P)
    (holds : s.Holds owner ⟨relay, leased, .loop rows published⟩ table sent)
    (past : s.now ≤ clock.now n) :
    ∃ t, System.Runs owner s t ∧
      t.Holds owner ⟨relay, leased, .done (.ok (published +
          (relay.drainClaimed publish clock owner n table p rows).published))⟩
        (relay.drainClaimed publish clock owner n table p rows).table
        (sent ++ (relay.drainClaimed publish clock owner n table p rows).calls) := by
  induction rows generalizing s n p table sent published with
  | nil =>
    refine ⟨s, .refl, ?_⟩
    simpa [OutboxPublisher.drainClaimed, Phase.loop] using holds
  | cons record rest ih =>
    obtain ⟨x, waited, holds, now⟩ := holds.waits past
    unfold OutboxPublisher.drainClaimed
    cases ready : record.prepare with
    | error error =>
      obtain ⟨y, parked, holds, later⟩ := holds.calls 0 (.loop rest published)
        (markFailed table record.id owner error).1
        (by simp only [Batch.call, Phase.loop, ready, Option.map_some])
      have next : y.now ≤ clock.now (n + 1) :=
        (later.trans now).trans_le (forward n)
      obtain ⟨z, drained, ends⟩ := ih (n + 1) p holds next
      exact ⟨z, (waited.trans parked).trans drained, ends⟩
    | ok bytes =>
      cases held : claimStillHeld table (clock.now n) record.id owner with
      | false =>
        obtain ⟨y, stopped, holds, _⟩ := holds.calls 0 (.done (.ok published)) table
          (by simp [Batch.call, Phase.loop, ready, now, held])
        exact ⟨y, waited.trans stopped, by simpa using holds⟩
      | true =>
        obtain ⟨y, probed, holds, now'⟩ := holds.calls 0 (.offer bytes record rest published)
          table (by simp [Batch.call, Phase.loop, ready, now, held])
        obtain ⟨z, offered, holds, now''⟩ := holds.offers
        have reached := (waited.trans probed).trans offered
        have next : z.now ≤ clock.now (n + 1) :=
          ((now''.trans now').trans now).trans_le (forward n)
        simp only [if_true]
        cases answer : publish p (record.message bytes) with
        | mk p' result =>
          cases result with
          | ok u =>
            obtain ⟨w, acked, holds, same⟩ :=
              holds.acknowledged (List.mem_append_right _ List.mem_cons_self)
            cases marked : (markPublished table record.id owner (clock.utc (n + 1))).2 with
            | true =>
              obtain ⟨v, marks, holds, same'⟩ := holds.calls (clock.utc (n + 1))
                (.loop rest (published + 1))
                (markPublished table record.id owner (clock.utc (n + 1))).1
                (by simp [Batch.call, marked])
              have later : v.now ≤ clock.now (n + 2) :=
                ((same'.trans same).trans_le next).trans (forward (n + 1))
              obtain ⟨u, drained, ends⟩ := ih (n + 2) p' holds later
              refine ⟨u, ((reached.trans acked).trans marks).trans drained, ?_⟩
              simpa [marked, List.append_assoc, Nat.add_assoc, Nat.add_comm 1] using ends
            | false =>
              obtain ⟨v, marks, holds, same'⟩ := holds.calls (clock.utc (n + 1))
                (.loop rest published) (markPublished table record.id owner (clock.utc (n + 1))).1
                (by simp [Batch.call, marked])
              have later : v.now ≤ clock.now (n + 2) :=
                ((same'.trans same).trans_le next).trans (forward (n + 1))
              obtain ⟨u, drained, ends⟩ := ih (n + 2) p' holds later
              refine ⟨u, ((reached.trans acked).trans marks).trans drained, ?_⟩
              simpa [marked, List.append_assoc] using ends
          | error error =>
            obtain ⟨w, refused, holds, same⟩ := holds.refused error
            obtain ⟨v, waited', holds, now⟩ := holds.waits (same.trans_le next)
            obtain ⟨u, recorded, holds, _⟩ := holds.calls 0 (.release published)
              (recordFailure relay table (clock.now (n + 1)) record owner error.toString)
              (by simp [Batch.call, now])
            obtain ⟨r, released, holds, _⟩ := holds.calls 0 (.done (.ok published))
              (releaseOutboxClaims
                (recordFailure relay table (clock.now (n + 1)) record owner error.toString) owner).1
              (by simp [Batch.call])
            exact ⟨r, (((reached.trans refused).trans waited').trans recorded).trans released,
              by simpa using holds⟩

/-- A whole `publish_batch` of the machine: the claim, then the loop over what it returned. -/
theorem publishBatch_runs {P : Type} (publish : Publisher P) {clock : Clock}
    (forward : ∀ k, clock.now k ≤ clock.now (k + 1)) {plan : Plan} {after : List OutboxRow}
    {records : List OutboxRecord} (unused : s.batches owner = none)
    (claimed : claimPendingOutbox s.table s.now owner relay.claimTtl relay.batchSize plan =
      .ok (after, records)) (past : s.now ≤ clock.now 0) (p : P) :
    ∃ x t, s.step (.claim owner relay plan .ok) = some x ∧ System.Runs owner x t ∧
      t.Holds owner
        ⟨relay, records,
          .done (.ok (relay.drainClaimed publish clock owner 0 after p records).published)⟩
        (relay.drainClaimed publish clock owner 0 after p records).table
        (s.sent ++ (relay.drainClaimed publish clock owner 0 after p records).calls) := by
  have taken : s.step (.claim owner relay plan .ok) =
      some ({ s with table := after }.withBatch owner ⟨relay, records, .loop records 0⟩) := by
    simp only [System.step, System.claim, unused, claimed]
  have holds :
    ({ s with table := after }.withBatch owner ⟨relay, records, .loop records 0⟩).Holds owner
      ⟨relay, records, .loop records 0⟩ after s.sent := by
    refine ⟨?_, rfl, rfl⟩
    simp [System.withBatch]
  obtain ⟨t, runs, ends⟩ := drainClaimed_runs publish forward 0 p holds past
  rw [Nat.zero_add] at ends
  exact ⟨_, t, taken, runs, ends⟩

end Uninterrupted

end FiduciaMessaging
