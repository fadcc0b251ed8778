import FiduciaMessaging.Outbox.Relay
import FiduciaMessaging.Outbox.Effects

/-! Inversion of the relay machine: what one step can do to the table and to the
batches. The invariants are derived from these facts, not from the definitions. -/
namespace FiduciaMessaging

open RowSet

variable {s s' : System} {a : Action} {owner other : Uuid} {batch : Batch}

@[simp] theorem withBatch_batches : (s.withBatch owner batch).batches other =
    if other = owner then some batch else s.batches other := by
  simp [System.withBatch, Function.update_apply]

/- Records a batch may still touch, and those it may still hand to the broker. -/
def Phase.held : Phase → List OutboxRecord
  | .row record rest _ => record :: rest
  | .offer _ record rest _ => record :: rest
  | .publishing record rest _ => record :: rest
  | .mark record rest _ => record :: rest
  | .fail record _ _ => [record]
  | _ => []

def Phase.toOffer : Phase → List OutboxRecord
  | .row record rest _ => record :: rest
  | .offer _ record rest _ => record :: rest
  | .publishing _ rest _ => rest
  | .mark _ rest _ => rest
  | _ => []

theorem toOffer_held {phase : Phase} {r : OutboxRecord} (member : r ∈ phase.toOffer) :
    r ∈ phase.held := by
  cases phase <;> first | exact member | exact List.mem_cons_of_mem _ member

@[simp] theorem loop_held (rest : List OutboxRecord) (n : Nat) :
    (Phase.loop rest n).held = rest := by
  cases rest <;> rfl

@[simp] theorem loop_toOffer (rest : List OutboxRecord) (n : Nat) :
    (Phase.loop rest n).toOffer = rest := by
  cases rest <;> rfl

variable {record : OutboxRecord} {startedAt now at_ : Timestamp} {relay : OutboxPublisher}
  {plan : Plan} {reply : Reply} {table : List OutboxRow} {call : Call}

/-- A claim draws a fresh owner; it leases candidates, or ends at once with an error. -/
theorem claim_cases (taken : s.claim owner relay plan reply = some s') :
    s.batches owner = none ∧
      ((∃ e, s' = s.withBatch owner ⟨relay, [], .done (.error e)⟩) ∨
      ∃ ms after records, positiveMs relay.claimTtl "outbox claim TTL" = .ok ms ∧
        ClaimedBy owner s.now (s.now + ms * millisecond) s.table
          (claimCandidates s.table s.now relay.batchSize plan) after records ∧
        ((reply = .ok ∧
            s' = { s with table := after }.withBatch owner
              ⟨relay, records, .loop records 0⟩) ∨
          ∃ e, reply = .lost e ∧ s' = { s with table := after }.withBatch owner
            ⟨relay, [], .done (.error (.database e))⟩)) := by
  unfold System.claim at taken
  split at taken
  · contradiction
  · rename_i fresh
    refine ⟨fresh, ?_⟩
    split at taken
    · exact .inl ⟨_, (Option.some.inj taken).symm⟩
    · rename_i after records claimed
      obtain ⟨ms, positive, spec⟩ := claimPendingOutbox_spec claimed
      exact .inr ⟨ms, after, records, positive, spec,
        .inl ⟨rfl, (Option.some.inj taken).symm⟩⟩
    · exact .inl ⟨_, (Option.some.inj taken).symm⟩
    · rename_i after records error claimed
      obtain ⟨ms, positive, spec⟩ := claimPendingOutbox_spec claimed
      exact .inr ⟨ms, after, records, positive, spec,
        .inr ⟨_, rfl, (Option.some.inj taken).symm⟩⟩

/-- A claim that is answered left the table alone, or returned what it leased. -/
theorem claim_leases (taken : s.claim owner relay plan .ok = some s') :
    (s'.table = s.table ∧ ∃ e, s'.batches owner = some ⟨relay, [], .done (.error e)⟩) ∨
      ∃ ms records, ClaimedBy owner s.now (s.now + ms * millisecond) s.table
          (claimCandidates s.table s.now relay.batchSize plan) s'.table records ∧
        s'.batches owner = some ⟨relay, records, .loop records 0⟩ := by
  obtain ⟨_, ⟨e, rfl⟩ | ⟨ms, after, records, _, spec,
      ⟨_, rfl⟩ | ⟨_, impossible, _⟩⟩⟩ :=
    claim_cases taken
  · exact .inl ⟨rfl, e, if_pos rfl⟩
  · exact .inr ⟨ms, records, spec, if_pos rfl⟩
  · cases impossible

theorem publish_cases (taken : s.publish owner = some s') :
    ∃ batch bytes record rest n, s.batches owner = some batch ∧
      batch.phase = .offer bytes record rest n ∧
      s' = { s.withBatch owner { batch with phase := .publishing record rest n } with
        sent := s.sent ++ [record.message bytes]
        trace := s.trace ++ [.offered owner record] } := by
  unfold System.publish at taken
  obtain ⟨batch, known, taken⟩ := Option.bind_eq_some_iff.mp taken
  split at taken
  · rename_i bytes record rest n phase
    exact ⟨batch, bytes, record, rest, n, known, phase, (Option.some.inj taken).symm⟩
  · contradiction

theorem answer_cases {result : Except MessagingError Unit}
    (taken : s.answer owner result = some s') :
    ∃ batch record rest n, s.batches owner = some batch ∧
      batch.phase = .publishing record rest n ∧
      ((result = .ok () ∧ s.stored record.dedupId = true ∧
          s' = { s.withBatch owner { batch with phase := .mark record rest n } with
            trace := s.trace ++ [.acknowledged owner record] }) ∨
        ∃ e, result = .error e ∧
          s' = s.withBatch owner { batch with phase := .fail record e n }) := by
  unfold System.answer at taken
  obtain ⟨batch, known, taken⟩ := Option.bind_eq_some_iff.mp taken
  split at taken
  · rename_i record rest n phase _
    split at taken
    · rename_i present
      exact ⟨batch, record, rest, n, known, phase,
        .inl ⟨rfl, present, (Option.some.inj taken).symm⟩⟩
    · contradiction
  · rename_i record rest n error phase _
    exact ⟨batch, record, rest, n, known, phase,
      .inr ⟨error, rfl, (Option.some.inj taken).symm⟩⟩
  · contradiction

theorem crash_cases (taken : s.crash owner = some s') :
    ∃ batch, s.batches owner = some batch ∧ batch.phase.ended = false ∧
      s' = s.withBatch owner { batch with phase := .crashed } := by
  unfold System.crash at taken
  obtain ⟨batch, known, taken⟩ := Option.bind_eq_some_iff.mp taken
  split at taken
  · contradiction
  · rename_i active
    exact ⟨batch, known, Bool.eq_false_iff.mpr active, (Option.some.inj taken).symm⟩

theorem append_cases {message : PublishedMessage} (taken : s.append message = some s') :
    message ∈ s.sent ∧ s' = { s with log := s.log ++ [⟨message, s.now⟩] } := by
  unfold System.append at taken
  split at taken
  · rename_i sent
    exact ⟨sent, (Option.some.inj taken).symm⟩
  · contradiction

theorem purgePublishedOutbox_ok {after : List OutboxRow} {olderThan : Duration} {n : Nat}
    (purged : purgePublishedOutbox table now olderThan = .ok (after, n)) :
    ∃ cutoff, after = deleteWhere (fun row => row.purgeable cutoff) table := by
  cases age : positiveMs olderThan "retention age" with
  | error e => simp [purgePublishedOutbox, age, bind, Except.bind] at purged
  | ok ms =>
    simp only [purgePublishedOutbox, age, bind, Except.bind, pure, Except.pure] at purged
    exact ⟨now - ms * millisecond, (Prod.mk.inj (Except.ok.inj purged)).1.symm⟩

theorem purge_cases (olderThan : Duration) : s.purge olderThan = s ∨
    ∃ cutoff, s.purge olderThan =
      { s with table := deleteWhere (fun row => row.purgeable cutoff) s.table } := by
  unfold System.purge
  split
  · exact .inl rfl
  · rename_i after n purged
    obtain ⟨cutoff, rfl⟩ := purgePublishedOutbox_ok purged
    exact .inr ⟨cutoff, rfl⟩

/- The phases whose call releases what is left of the claim. -/
def Phase.releasing : Phase → Bool
  | .release _ => true
  | .unwind _ _ => true
  | _ => false

section External

variable [External]

theorem insertOutboxRow_ok {after : List OutboxRow}
    (inserted : insertOutboxRow table startedAt record = .ok after) :
    record.validate = .ok () ∧
      after = insertUnless (fun row => row.toStaged.conflicts record.toStaged)
        (record.row startedAt) table := by
  cases checked : record.validate with
  | error e => simp [insertOutboxRow, checked, bind, Except.bind] at inserted
  | ok u =>
    simp only [insertOutboxRow, checked, bind, Except.bind, pure, Except.pure] at inserted
    exact ⟨rfl, (Except.ok.inj inserted).symm⟩

/-- An enqueue changes nothing, or adds a valid record that conflicts with no row. -/
theorem enqueue_cases (taken : s.enqueue record startedAt = some s') :
    s' = s ∨ (record.validate = .ok () ∧
      (∀ row ∈ s.table, row.toStaged.conflicts record.toStaged = false) ∧
      s' = { s with table := s.table ++ [record.row startedAt],
                    trace := s.trace ++ [.staged record.toStaged] }) := by
  unfold System.enqueue at taken
  split at taken
  · split at taken
    · exact .inl (Option.some.inj taken).symm
    · rename_i after inserted
      obtain ⟨valid, rfl⟩ := insertOutboxRow_ok inserted
      unfold insertUnless at taken
      split at taken
      · rename_i found
        rw [List.append_nil] at taken
        exact .inl (Option.some.inj taken).symm
      · rename_i free
        have clear : ∀ row ∈ s.table, row.toStaged.conflicts record.toStaged = false := by
          simpa using free
        exact .inr ⟨valid, clear, (Option.some.inj taken).symm⟩
  · contradiction

/-- A database step runs the call its phase waits on, wholly, in part or not at all. -/
theorem database_cases (taken : s.database owner reply at_ = some s') :
    ∃ batch call, s.batches owner = some batch ∧
      batch.call s.table s.now owner at_ = some call ∧
      ((reply = .ok ∧ s' = { s.withBatch owner { batch with phase := call.next } with
          table := call.table
          lostLeasePublishes := s.lostLeasePublishes + call.lost
          trace := s.trace ++ call.events }) ∨
      (∃ e, reply = .failed e ∧
        s' = s.withBatch owner { batch with phase := call.onError (.database e) }) ∨
      (∃ e, reply = .lost e ∧
        s' = { s.withBatch owner { batch with phase := call.onError (.database e) } with
          table := call.table })) := by
  unfold System.database at taken
  obtain ⟨batch, known, taken⟩ := Option.bind_eq_some_iff.mp taken
  obtain ⟨call, called, result⟩ := Option.map_eq_some_iff.mp taken
  refine ⟨batch, call, known, called, ?_⟩
  cases reply with
  | ok => exact .inl ⟨rfl, result.symm⟩
  | failed e => exact .inr (.inl ⟨e, rfl, result.symm⟩)
  | lost e => exact .inr (.inr ⟨e, rfl, result.symm⟩)

theorem prepare_bytes {bytes : List UInt8} (prepared : record.prepare = .ok bytes) :
    External.toVec record.payload = .ok bytes := by
  cases serialized : External.toVec record.payload with
  | error e => simp [OutboxRecord.prepare, serialized, bind, Except.bind] at prepared
  | ok written =>
    simp only [OutboxRecord.prepare, serialized, bind, Except.bind, pure, Except.pure] at prepared
    split at prepared
    · contradiction
    · exact prepared

theorem prepare_of_validate (valid : record.validate = .ok ()) :
    ∃ bytes, record.prepare = .ok bytes := by
  cases serialized : External.toVec record.payload with
  | error e => simp [OutboxRecord.validate, serialized, bind, Except.bind, Except.mapError] at valid
  | ok bytes =>
    simp only [OutboxRecord.validate, serialized, bind, Except.bind, Except.mapError] at valid
    refine ⟨bytes, ?_⟩
    simp only [OutboxRecord.prepare, serialized, bind, Except.bind, valid, Except.mapError, pure,
      Except.pure]

/- The calls a phase can make, one for each branch of the drain. -/
inductive Calls (b : Batch) (table : List OutboxRow) (now : Timestamp) (owner : Uuid)
    (at_ : Timestamp) : Call → Prop where
  | unprepared {r rest n error} : b.phase = .row r rest n → r.prepare = .error error →
      Calls b table now owner at_ ⟨(markFailed table r.id owner error).1, .loop rest n,
        fun e => .unwind e none, [], 0⟩
  | held {r rest n bytes} : b.phase = .row r rest n → r.prepare = .ok bytes →
      claimStillHeld table now r.id owner = true →
      Calls b table now owner at_ ⟨table, .offer bytes r rest n, fun e => .unwind e none, [], 0⟩
  | lapsed {r rest n bytes} : b.phase = .row r rest n → r.prepare = .ok bytes →
      claimStillHeld table now r.id owner = false →
      Calls b table now owner at_ ⟨table, .done (.ok n), fun e => .unwind e none,
        [.lostLease owner r], 1⟩
  | marked {r rest n} : b.phase = .mark r rest n →
      (markPublished table r.id owner at_).2 = true →
      Calls b table now owner at_ ⟨(markPublished table r.id owner at_).1, .loop rest (n + 1),
        fun e => .unwind e (some r), [.marked owner r true], 0⟩
  | markedLate {r rest n} : b.phase = .mark r rest n →
      (markPublished table r.id owner at_).2 = false →
      Calls b table now owner at_ ⟨(markPublished table r.id owner at_).1, .loop rest n,
        fun e => .unwind e (some r), [.marked owner r false, .lostLease owner r], 1⟩
  | recorded {r error n} : b.phase = .fail r error n →
      Calls b table now owner at_ ⟨recordFailure b.relay table now r owner error.toString,
        .release n, fun e => .unwind e (some r), [], 0⟩
  | released {n} : b.phase = .release n →
      Calls b table now owner at_ ⟨(releaseOutboxClaims table owner).1, .done (.ok n),
        fun e => .unwind e none, [], 0⟩
  | unwound {error offered} : b.phase = .unwind error offered →
      Calls b table now owner at_ ⟨(releaseOutboxClaims table owner).1, .done (.error error),
        fun _ => .done (.error error), [], 0⟩

theorem call_calls (called : batch.call table now owner at_ = some call) :
    Calls batch table now owner at_ call := by
  unfold Batch.call at called
  split at called
  · rename_i r rest n phase
    split at called
    · rename_i error bad
      obtain rfl := Option.some.inj called
      exact .unprepared phase bad
    · rename_i bytes ready
      split at called
      · rename_i live
        obtain rfl := Option.some.inj called
        exact .held phase ready live
      · rename_i lapsed
        obtain rfl := Option.some.inj called
        exact .lapsed phase ready (Bool.eq_false_iff.mpr lapsed)
  · rename_i r rest n phase
    split at called
    · rename_i one
      obtain rfl := Option.some.inj called
      exact .marked phase one
    · rename_i zero
      obtain rfl := Option.some.inj called
      exact .markedLate phase (Bool.eq_false_iff.mpr zero)
  · rename_i r error n phase
    obtain rfl := Option.some.inj called
    exact .recorded phase
  · rename_i n phase
    obtain rfl := Option.some.inj called
    exact .released phase
  · rename_i error offered phase
    obtain rfl := Option.some.inj called
    exact .unwound phase
  · contradiction

/- What a call does to a row it changes. The row belongs to the caller, and the phase
says which record or which release it is about. -/
inductive RowCall (b : Batch) (now : Timestamp) (owner : Uuid) (at_ : Timestamp) (row : OutboxRow) :
    OutboxRow → Prop where
  | unprepared {r rest n error} : b.phase = .row r rest n → r.prepare = .error error →
      row.id = r.id → row.claimOwner = some owner →
      RowCall b now owner at_ row (row.parked error)
  | published {r rest n} : b.phase = .mark r rest n → row.id = r.id →
      row.claimOwner = some owner →
      RowCall b now owner at_ row (row.published at_)
  | exhausted {r error n} : b.phase = .fail r error n →
      b.relay.maxAttempts ≤ saturateI32 r.attempts → row.id = r.id →
      row.claimOwner = some owner →
      RowCall b now owner at_ row (row.parked error.toString)
  | rescheduled {r error n} : b.phase = .fail r error n →
      saturateI32 r.attempts < b.relay.maxAttempts → row.id = r.id →
      row.claimOwner = some owner →
      row.status = .pending → RowCall b now owner at_ row (row.rescheduled now error.toString)
  | released : b.phase.releasing = true → row.status = .pending →
      row.claimOwner = some owner →
      RowCall b now owner at_ row row.released

theorem RowCall.settles {row row' : OutboxRow} (called : RowCall batch now owner at_ row row') :
    row.claimOwner = some owner ∧ row.Settles row' := by
  cases called with
  | unprepared _ _ _ owned => exact ⟨owned, .parked _⟩
  | published _ _ owned => exact ⟨owned, .published _⟩
  | exhausted _ _ _ owned => exact ⟨owned, .parked _⟩
  | rescheduled _ _ _ owned pending => exact ⟨owned, .rescheduled _ _ pending⟩
  | released _ pending owned => exact ⟨owned, .released pending⟩

/-- A call maps the table row by row; a row either stays or is settled for its owner. -/
theorem call_maps (called : batch.call table now owner at_ = some call) :
    ∃ g : OutboxRow → OutboxRow, call.table = table.map g ∧
      ∀ row, g row = row ∨ RowCall batch now owner at_ row (g row) := by
  have update {p : OutboxRow → Bool} {f : OutboxRow → OutboxRow}
      (marks : ∀ row, p row = true → RowCall batch now owner at_ row (f row)) :
      ∃ g : OutboxRow → OutboxRow, updateWhere p f table = table.map g ∧
        ∀ row, g row = row ∨ RowCall batch now owner at_ row (g row) := by
    refine ⟨fun row => if p row then f row else row, rfl, fun row => ?_⟩
    cases matched : p row with
    | false => exact .inl (if_neg (Bool.eq_false_iff.mp matched))
    | true =>
      right
      simp only [matched, if_true]
      exact marks row matched
  have same : ∃ g : OutboxRow → OutboxRow, table = table.map g ∧
      ∀ row, g row = row ∨ RowCall batch now owner at_ row (g row) :=
    ⟨fun row => row, (List.map_id' table).symm, fun _ => .inl rfl⟩
  cases call_calls called with
  | unprepared phase bad =>
    exact update (fun row matched =>
      .unprepared phase bad (ownedAs_iff.mp matched).1 (ownedAs_iff.mp matched).2)
  | held => exact same
  | lapsed => exact same
  | marked phase =>
    exact update (fun row matched =>
      .published phase (ownedAs_iff.mp matched).1 (ownedAs_iff.mp matched).2)
  | markedLate phase =>
    exact update (fun row matched =>
      .published phase (ownedAs_iff.mp matched).1 (ownedAs_iff.mp matched).2)
  | recorded phase =>
    unfold recordFailure
    split
    · rename_i exhausted
      exact update (fun row matched =>
        .exhausted phase exhausted (ownedAs_iff.mp matched).1 (ownedAs_iff.mp matched).2)
    · rename_i left_
      refine update (fun row matched => ?_)
      obtain ⟨same, owned, pending⟩ := pendingAs_iff.mp matched
      exact .rescheduled phase (Int.not_le.mp left_) same owned pending
  | released phase =>
    refine update (fun row matched => ?_)
    obtain ⟨pending, owned⟩ := pendingOf_iff.mp matched
    exact .released (by rw [phase]; rfl) pending owned
  | unwound phase =>
    refine update (fun row matched => ?_)
    obtain ⟨pending, owned⟩ := pendingOf_iff.mp matched
    exact .released (by rw [phase]; rfl) pending owned

theorem call_staged (called : batch.call table now owner at_ = some call) :
    call.table.map OutboxRow.toStaged = table.map OutboxRow.toStaged := by
  obtain ⟨g, mapped, rows⟩ := call_maps called
  rw [mapped, List.map_map]
  refine List.map_congr_left (fun row _ => ?_)
  rcases rows row with same | changed
  · exact congrArg OutboxRow.toStaged same
  · exact changed.settles.2.toStaged

/-- Only the mark of an acknowledged record publishes a row. -/
theorem call_published {row' : OutboxRow} (called : batch.call table now owner at_ = some call)
    (member : row' ∈ call.table) (published : row'.status = .published) :
    row' ∈ table ∨ ∃ r rest n, batch.phase = .mark r rest n ∧
      ∃ row ∈ table, row.id = r.id ∧ row.claimOwner = some owner ∧
        row' = row.published at_ := by
  obtain ⟨g, mapped, rows⟩ := call_maps called
  rw [mapped] at member
  obtain ⟨row, inside, rfl⟩ := List.mem_map.mp member
  rcases rows row with same | changed
  · exact .inl (same.symm ▸ inside)
  · generalize g row = row' at changed published
    cases changed with
    | unprepared => simp [OutboxRow.parked] at published
    | published phase same owned => exact .inr ⟨_, _, _, phase, row, inside, same, owned, rfl⟩
    | exhausted => simp [OutboxRow.parked] at published
    | rescheduled _ _ _ _ pending => simp [OutboxRow.rescheduled, pending] at published
    | released _ pending => simp [OutboxRow.released, pending] at published

/- A call leaves the batch with records it had, in order, and an error with none. -/
theorem call_held (called : batch.call table now owner at_ = some call) :
    call.next.held.Sublist batch.phase.held ∧ call.next.toOffer.Sublist batch.phase.toOffer ∧
      ∀ e, (call.onError e).held = [] ∧ (call.onError e).toOffer = [] := by
  cases call_calls called with
  | unprepared phase =>
    rw [phase, loop_held, loop_toOffer]
    exact ⟨List.sublist_cons_self _ _, List.sublist_cons_self _ _, fun _ => ⟨rfl, rfl⟩⟩
  | held phase =>
    rw [phase]
    exact ⟨List.Sublist.refl _, List.Sublist.refl _, fun _ => ⟨rfl, rfl⟩⟩
  | marked phase =>
    rw [phase, loop_held, loop_toOffer]
    exact ⟨List.sublist_cons_self _ _, List.Sublist.refl _, fun _ => ⟨rfl, rfl⟩⟩
  | markedLate phase =>
    rw [phase, loop_held, loop_toOffer]
    exact ⟨List.sublist_cons_self _ _, List.Sublist.refl _, fun _ => ⟨rfl, rfl⟩⟩
  | _ => exact ⟨List.nil_sublist _, List.nil_sublist _, fun _ => ⟨rfl, rfl⟩⟩

/-- No call leaves a record to be marked; only an acknowledgement does. -/
theorem call_not_marking (called : batch.call table now owner at_ = some call)
    {r : OutboxRecord} {rest : List OutboxRecord} {n : Nat} :
    call.next ≠ .mark r rest n ∧ ∀ e, call.onError e ≠ .mark r rest n := by
  have head (rest' : List OutboxRecord) (m : Nat) : Phase.loop rest' m ≠ .mark r rest n := by
    cases rest' <;> simp [Phase.loop]
  cases call_calls called with
  | unprepared => exact ⟨head _ _, fun _ => by simp⟩
  | marked => exact ⟨head _ _, fun _ => by simp⟩
  | markedLate => exact ⟨head _ _, fun _ => by simp⟩
  | _ => simp

/-- Only a probe that passed leads to a hand-over, and it writes nothing. -/
theorem call_offering (called : batch.call table now owner at_ = some call) {bytes : List UInt8}
    {r : OutboxRecord} {rest : List OutboxRecord} {n : Nat} :
    (call.next = .offer bytes r rest n → batch.phase = .row r rest n ∧ r.prepare = .ok bytes ∧
      claimStillHeld table now r.id owner = true ∧ call.table = table) ∧
    ∀ e, call.onError e ≠ .offer bytes r rest n := by
  have head (l : List OutboxRecord) (m : Nat) : Phase.loop l m ≠ .offer bytes r rest n := by
    cases l <;> simp [Phase.loop]
  cases call_calls called with
  | unprepared => exact ⟨fun next => absurd next (head _ _), fun _ => by simp⟩
  | held phase ready live =>
    refine ⟨fun next => ?_, fun _ => by simp⟩
    cases next
    exact ⟨phase, ready, live, rfl⟩
  | marked => exact ⟨fun next => absurd next (head _ _), fun _ => by simp⟩
  | markedLate => exact ⟨fun next => absurd next (head _ _), fun _ => by simp⟩
  | _ => simp

theorem call_stages_nothing (called : batch.call table now owner at_ = some call)
    (staged : Staged) :
    Event.staged staged ∉ call.events := by
  cases call_calls called <;> simp

/- Everything one step can do, with the state it leaves written out. -/
inductive Moves (s : System) : Action → System → Prop where
  | idle {a : Action} : a.owner = none → Moves s a s
  | enqueued {record : OutboxRecord} {startedAt : Timestamp} : record.validate = .ok () →
      (∀ row ∈ s.table, row.toStaged.conflicts record.toStaged = false) →
      Moves s (.enqueue record startedAt)
        { s with table := s.table ++ [record.row startedAt],
                 trace := s.trace ++ [.staged record.toStaged] }
  | unclaimed {owner relay plan reply e} : s.batches owner = none →
      Moves s (.claim owner relay plan reply) (s.withBatch owner ⟨relay, [], .done (.error e)⟩)
  | claimed {owner relay plan ms after records} : s.batches owner = none →
      positiveMs relay.claimTtl "outbox claim TTL" = .ok ms →
      ClaimedBy owner s.now (s.now + ms * millisecond) s.table
        (claimCandidates s.table s.now relay.batchSize plan) after records →
      Moves s (.claim owner relay plan .ok)
        ({ s with table := after }.withBatch owner ⟨relay, records, .loop records 0⟩)
  | claimLost {owner relay plan ms after records e} : s.batches owner = none →
      positiveMs relay.claimTtl "outbox claim TTL" = .ok ms →
      ClaimedBy owner s.now (s.now + ms * millisecond) s.table
        (claimCandidates s.table s.now relay.batchSize plan) after records →
      Moves s (.claim owner relay plan (.lost e))
        ({ s with table := after }.withBatch owner ⟨relay, [], .done (.error (.database e))⟩)
  | called {owner at_ b c} : s.batches owner = some b →
      b.call s.table s.now owner at_ = some c →
      Moves s (.database owner .ok at_) { s.withBatch owner { b with phase := c.next } with
        table := c.table
        lostLeasePublishes := s.lostLeasePublishes + c.lost
        trace := s.trace ++ c.events }
  | callFailed {owner at_ b c e} : s.batches owner = some b →
      b.call s.table s.now owner at_ = some c →
      Moves s (.database owner (.failed e) at_)
        (s.withBatch owner { b with phase := c.onError (.database e) })
  | callLost {owner at_ b c e} : s.batches owner = some b →
      b.call s.table s.now owner at_ = some c →
      Moves s (.database owner (.lost e) at_)
        { s.withBatch owner { b with phase := c.onError (.database e) } with table := c.table }
  | published {owner b bytes r rest n} : s.batches owner = some b →
      b.phase = .offer bytes r rest n →
      Moves s (.publish owner) { s.withBatch owner { b with phase := .publishing r rest n } with
        sent := s.sent ++ [r.message bytes]
        trace := s.trace ++ [.offered owner r] }
  | acknowledged {owner b r rest n} : s.batches owner = some b →
      b.phase = .publishing r rest n →
      s.stored r.dedupId = true →
      Moves s (.answer owner (.ok ())) { s.withBatch owner { b with phase := .mark r rest n } with
        trace := s.trace ++ [.acknowledged owner r] }
  | refused {owner b r rest n e} : s.batches owner = some b → b.phase = .publishing r rest n →
      Moves s (.answer owner (.error e)) (s.withBatch owner { b with phase := .fail r e n })
  | crashed {owner b} : s.batches owner = some b → b.phase.ended = false →
      Moves s (.crash owner) (s.withBatch owner { b with phase := .crashed })
  | appended {message} : message ∈ s.sent →
      Moves s (.append message) { s with log := s.log ++ [⟨message, s.now⟩] }
  | purged {olderThan cutoff} : Moves s (.purge olderThan)
      { s with table := deleteWhere (fun row => row.purgeable cutoff) s.table }
  | ticked {elapsed : Nat} : Moves s (.tick elapsed) { s with now := s.now + elapsed }

theorem step_moves (taken : s.step a = some s') : Moves s a s' := by
  cases a with
  | enqueue record startedAt =>
    obtain rfl | ⟨valid, clear, rfl⟩ := enqueue_cases taken
    · exact .idle rfl
    · exact .enqueued valid clear
  | claim owner relay plan reply =>
    obtain ⟨fresh, ⟨e, rfl⟩ | ⟨ms, after, records, positive, spec,
        ⟨rfl, rfl⟩ | ⟨e, rfl, rfl⟩⟩⟩ :=
      claim_cases taken
    · exact .unclaimed fresh
    · exact .claimed fresh positive spec
    · exact .claimLost fresh positive spec
  | database owner reply at_ =>
    obtain ⟨b, c, known, called, ⟨rfl, rfl⟩ | ⟨e, rfl, rfl⟩ | ⟨e, rfl, rfl⟩⟩ :=
      database_cases taken
    · exact .called known called
    · exact .callFailed known called
    · exact .callLost known called
  | publish owner =>
    obtain ⟨b, bytes, r, rest, n, known, phase, rfl⟩ := publish_cases taken
    exact .published known phase
  | answer owner result =>
    obtain ⟨b, r, rest, n, known, phase, ⟨rfl, present, rfl⟩ | ⟨e, rfl, rfl⟩⟩ :=
      answer_cases taken
    · exact .acknowledged known phase present
    · exact .refused known phase
  | crash owner =>
    obtain ⟨b, known, active, rfl⟩ := crash_cases taken
    exact .crashed known active
  | append message =>
    obtain ⟨sent, rfl⟩ := append_cases taken
    exact .appended sent
  | purge olderThan =>
    obtain rfl := Option.some.inj taken
    obtain same | ⟨cutoff, purged⟩ := purge_cases (s := s) olderThan
    · rw [same]
      exact .idle rfl
    · rw [purged]
      exact .purged
  | tick elapsed =>
    obtain rfl := Option.some.inj taken
    exact .ticked

/- What one step can do to the table. -/
inductive TableStep (s : System) : Action → List OutboxRow → Prop where
  | same (a : Action) : TableStep s a s.table
  | inserted (record : OutboxRecord) (startedAt : Timestamp) : record.validate = .ok () →
      (∀ row ∈ s.table, row.toStaged.conflicts record.toStaged = false) →
      TableStep s (.enqueue record startedAt) (s.table ++ [record.row startedAt])
  | claimed {owner relay plan reply ms after records} : s.batches owner = none →
      positiveMs relay.claimTtl "outbox claim TTL" = .ok ms →
      ClaimedBy owner s.now (s.now + ms * millisecond) s.table
        (claimCandidates s.table s.now relay.batchSize plan) after records →
      TableStep s (.claim owner relay plan reply) after
  | called {owner reply at_ b c} : s.batches owner = some b → (∀ e, reply ≠ .failed e) →
      b.call s.table s.now owner at_ = some c → TableStep s (.database owner reply at_) c.table
  | purged (olderThan : Duration) (cutoff : Timestamp) :
      TableStep s (.purge olderThan) (deleteWhere (fun row => row.purgeable cutoff) s.table)

theorem step_table (taken : s.step a = some s') : TableStep s a s'.table := by
  cases step_moves taken with
  | enqueued valid clear => exact .inserted _ _ valid clear
  | claimed fresh positive spec => exact .claimed fresh positive spec
  | claimLost fresh positive spec => exact .claimed fresh positive spec
  | called known called => exact .called known (by simp) called
  | callLost known called => exact .called known (by simp) called
  | purged => exact .purged _ _
  | _ => exact .same _

theorem step_other_batches (taken : s.step a = some s') (different : a.owner ≠ some other) :
    s'.batches other = s.batches other := by
  have moves := step_moves taken
  -- every batch a step writes is the one its action names
  have apart : ∀ o, a.owner = some o → other ≠ o :=
    fun o same equal => different (equal ▸ same)
  cases moves <;> first | rfl | simp [apart _ rfl]

/- How one step moves the batch of a known owner, with what else the step did. -/
inductive BatchMove (s : System) (a : Action) (s' : System) (owner : Uuid) (b : Batch) :
    Phase → Prop where
  | call (c : Call) (at_ : Timestamp) : a = .database owner .ok at_ →
      b.call s.table s.now owner at_ = some c → s'.table = c.table →
      s'.trace = s.trace ++ c.events → BatchMove s a s' owner b c.next
  | error (c : Call) (reply : Reply) (at_ : Timestamp) (e : String) :
      a = .database owner reply at_ → reply ≠ .ok →
        b.call s.table s.now owner at_ = some c →
      s'.trace = s.trace → BatchMove s a s' owner b (c.onError (.database e))
  | publish (bytes : List UInt8) (r : OutboxRecord) (rest : List OutboxRecord) (n : Nat) :
      a = .publish owner → b.phase = .offer bytes r rest n →
      s'.trace = s.trace ++ [.offered owner r] → BatchMove s a s' owner b (.publishing r rest n)
  | acknowledged (r : OutboxRecord) (rest : List OutboxRecord) (n : Nat) :
      a = .answer owner (.ok ()) → b.phase = .publishing r rest n →
        s.stored r.dedupId = true →
      BatchMove s a s' owner b (.mark r rest n)
  | refused (r : OutboxRecord) (rest : List OutboxRecord) (n : Nat) (e : MessagingError) :
      a = .answer owner (.error e) → b.phase = .publishing r rest n →
      BatchMove s a s' owner b (.fail r e n)
  | crash : a = .crash owner → b.phase.ended = false → BatchMove s a s' owner b .crashed

theorem step_known_batch (taken : s.step a = some s') (known : s.batches owner = some batch) :
    ∃ batch', s'.batches owner = some batch' ∧ batch'.relay = batch.relay ∧
      batch'.leased = batch.leased ∧
      ((a.owner ≠ some owner ∧ batch' = batch) ∨
        BatchMove s a s' owner batch batch'.phase) := by
  by_cases mine : a.owner = some owner
  · have moves := step_moves taken
    have same {o : Uuid} {b : Batch} (equal : some o = some owner) (known' : s.batches o = some b) :
        o = owner ∧ b = batch := by
      obtain rfl := Option.some.inj equal
      exact ⟨rfl, Option.some.inj (known'.symm.trans known)⟩
    cases moves with
    | idle none_ => cases none_.symm.trans mine
    | enqueued => cases mine
    | appended => cases mine
    | purged => cases mine
    | ticked => cases mine
    | unclaimed fresh =>
      obtain rfl := Option.some.inj mine
      cases fresh.symm.trans known
    | claimed fresh =>
      obtain rfl := Option.some.inj mine
      cases fresh.symm.trans known
    | claimLost fresh =>
      obtain rfl := Option.some.inj mine
      cases fresh.symm.trans known
    | called known' called =>
      obtain ⟨rfl, rfl⟩ := same mine known'
      exact ⟨_, if_pos rfl, rfl, rfl, .inr (.call _ _ rfl called rfl rfl)⟩
    | callFailed known' called =>
      obtain ⟨rfl, rfl⟩ := same mine known'
      exact ⟨_, if_pos rfl, rfl, rfl, .inr (.error _ _ _ _ rfl (by simp) called rfl)⟩
    | callLost known' called =>
      obtain ⟨rfl, rfl⟩ := same mine known'
      exact ⟨_, if_pos rfl, rfl, rfl, .inr (.error _ _ _ _ rfl (by simp) called rfl)⟩
    | published known' phase =>
      obtain ⟨rfl, rfl⟩ := same mine known'
      exact ⟨_, if_pos rfl, rfl, rfl, .inr (.publish _ _ _ _ rfl phase rfl)⟩
    | acknowledged known' phase present =>
      obtain ⟨rfl, rfl⟩ := same mine known'
      exact ⟨_, if_pos rfl, rfl, rfl, .inr (.acknowledged _ _ _ rfl phase present)⟩
    | refused known' phase =>
      obtain ⟨rfl, rfl⟩ := same mine known'
      exact ⟨_, if_pos rfl, rfl, rfl, .inr (.refused _ _ _ _ rfl phase)⟩
    | crashed known' active =>
      obtain ⟨rfl, rfl⟩ := same mine known'
      exact ⟨_, if_pos rfl, rfl, rfl, .inr (.crash rfl active)⟩
  · exact ⟨batch, (step_other_batches taken mine).trans known, rfl, rfl, .inl ⟨mine, rfl⟩⟩

/-- What became of a batch that is there before and after a step. -/
theorem step_batch {batch' : Batch} (taken : s.step a = some s')
    (known : s.batches owner = some batch) (known' : s'.batches owner = some batch') :
    batch'.relay = batch.relay ∧ batch'.leased = batch.leased ∧
      ((a.owner ≠ some owner ∧ batch' = batch) ∨
        BatchMove s a s' owner batch batch'.phase) := by
  obtain ⟨found, some_, moved⟩ := step_known_batch taken known
  obtain rfl := Option.some.inj (known'.symm.trans some_)
  exact moved

theorem step_new_batch (taken : s.step a = some s') (fresh : s.batches owner = none)
    (known : s'.batches owner = some batch) :
    ∃ relay plan reply, a = .claim owner relay plan reply ∧ batch.relay = relay ∧
      ((∃ e, batch.phase = .done (.error e) ∧ batch.leased = []) ∨ ∃ ms, reply = .ok ∧
        positiveMs relay.claimTtl "outbox claim TTL" = .ok ms ∧
        ClaimedBy owner s.now (s.now + ms * millisecond) s.table
          (claimCandidates s.table s.now relay.batchSize plan) s'.table batch.leased ∧
        batch.phase = .loop batch.leased 0) := by
  have mine : a.owner = some owner := by
    by_contra different
    rw [step_other_batches taken different, fresh] at known
    contradiction
  have moves := step_moves taken
  have drawn {o : Uuid} {b : Batch} (equal : some o = some owner) (known' : s.batches o = some b) :
      False := by
    obtain rfl := Option.some.inj equal
    cases fresh.symm.trans known'
  cases moves with
  | idle none_ => cases none_.symm.trans mine
  | enqueued => cases mine
  | appended => cases mine
  | purged => cases mine
  | ticked => cases mine
  | unclaimed =>
    obtain rfl := Option.some.inj mine
    rw [withBatch_batches, if_pos rfl] at known
    obtain rfl := Option.some.inj known
    exact ⟨_, _, _, rfl, rfl, .inl ⟨_, rfl, rfl⟩⟩
  | claimed _ positive spec =>
    obtain rfl := Option.some.inj mine
    rw [withBatch_batches, if_pos rfl] at known
    obtain rfl := Option.some.inj known
    exact ⟨_, _, _, rfl, rfl, .inr ⟨_, rfl, positive, spec, rfl⟩⟩
  | claimLost =>
    obtain rfl := Option.some.inj mine
    rw [withBatch_batches, if_pos rfl] at known
    obtain rfl := Option.some.inj known
    exact ⟨_, _, _, rfl, rfl, .inl ⟨_, rfl, rfl⟩⟩
  | called known' => exact (drawn mine known').elim
  | callFailed known' => exact (drawn mine known').elim
  | callLost known' => exact (drawn mine known').elim
  | published known' => exact (drawn mine known').elim
  | acknowledged known' => exact (drawn mine known').elim
  | refused known' => exact (drawn mine known').elim
  | crashed known' => exact (drawn mine known').elim

/-- A batch starts at its first row, or has nothing to do. -/
theorem step_new_phase (taken : s.step a = some s') (fresh : s.batches owner = none)
    (known : s'.batches owner = some batch) : (∃ result, batch.phase = .done result) ∨
      ∃ r rest, batch.phase = .row r rest 0 := by
  obtain ⟨_, _, _, _, _, ⟨e, ended, _⟩ | ⟨_, _, _, _, start⟩⟩ :=
    step_new_batch taken fresh known
  · exact .inl ⟨_, ended⟩
  · cases leased : batch.leased with
    | nil => exact .inl ⟨.ok 0, by rw [start, leased]; rfl⟩
    | cons r rest => exact .inr ⟨r, rest, by rw [start, leased]; rfl⟩

theorem BatchMove.held {phase : Phase} (moved : BatchMove s a s' owner batch phase) :
    phase.held.Sublist batch.phase.held := by
  cases moved with
  | call c at_ _ called => exact (call_held called).1
  | error c reply at_ e _ _ called =>
    rw [((call_held called).2.2 _).1]
    exact List.nil_sublist _
  | publish bytes r rest n _ before => rw [before]; exact List.Sublist.refl _
  | acknowledged r rest n _ before => rw [before]; exact List.Sublist.refl _
  | refused r rest n e _ before =>
    rw [before]
    exact (List.nil_sublist rest).cons_cons r
  | crash => exact List.nil_sublist _

theorem BatchMove.toOffer {phase : Phase} (moved : BatchMove s a s' owner batch phase) :
    phase.toOffer.Sublist batch.phase.toOffer := by
  cases moved with
  | call c at_ _ called => exact (call_held called).2.1
  | error c reply at_ e _ _ called =>
    rw [((call_held called).2.2 _).2]
    exact List.nil_sublist _
  | publish bytes r rest n _ before => rw [before]; exact List.sublist_cons_self _ _
  | acknowledged r rest n _ before => rw [before]; exact List.Sublist.refl _
  | refused r rest n e _ before => exact List.nil_sublist _
  | crash => exact List.nil_sublist _

theorem BatchMove.offer {bytes : List UInt8} {r : OutboxRecord} {rest : List OutboxRecord} {n : Nat}
    (moved : BatchMove s a s' owner batch (.offer bytes r rest n)) :
    batch.phase = .row r rest n ∧ r.prepare = .ok bytes ∧
      claimStillHeld s.table s.now r.id owner = true := by
  generalize target : Phase.offer bytes r rest n = phase at moved
  cases moved with
  | call c at_ _ called =>
    obtain ⟨before, ready, live, _⟩ := (call_offering called).1 target.symm
    exact ⟨before, ready, live⟩
  | error c reply at_ e _ _ called => exact absurd target.symm ((call_offering called).2 _)
  | _ => cases target

/-- The error path is entered only by a database call that did not succeed. -/
theorem BatchMove.unwind {error : MessagingError} {offered : Option OutboxRecord}
    (moved : BatchMove s a s' owner batch (.unwind error offered)) :
    ∃ reply at_, a = .database owner reply at_ ∧ reply ≠ .ok := by
  have head (rest : List OutboxRecord) (n : Nat) : Phase.loop rest n ≠ .unwind error offered := by
    cases rest <;> simp [Phase.loop]
  generalize target : Phase.unwind error offered = phase at moved
  cases moved with
  | call c at_ _ called =>
    cases call_calls called with
    | unprepared => exact absurd target.symm (head _ _)
    | marked => exact absurd target.symm (head _ _)
    | markedLate => exact absurd target.symm (head _ _)
    | _ => cases target
  | error c reply at_ e called failed => exact ⟨reply, at_, called, failed⟩
  | _ => cases target

/-- Only a batch that has not ended moves. -/
theorem BatchMove.active {phase : Phase} (moved : BatchMove s a s' owner batch phase) :
    batch.phase.ended = false := by
  have calls {c : Call} {at_ : Timestamp} (called : batch.call s.table s.now owner at_ = some c) :
      batch.phase.ended = false := by
    cases call_calls called <;> rename_i phase _ <;> simp [*, Phase.ended]
  cases moved with
  | call c at_ _ called => exact calls called
  | error c reply at_ e _ _ called => exact calls called
  | publish bytes r rest n _ before => rw [before]; rfl
  | acknowledged r rest n _ before => rw [before]; rfl
  | refused r rest n e _ before => rw [before]; rfl
  | crash _ active => exact active

/-- A release that was answered is the last thing a batch does. -/
theorem BatchMove.releasing {phase : Phase} (moved : BatchMove s a s' owner batch phase)
    (replied : ∀ reply at_, a = .database owner reply at_ → reply = .ok)
    (releasing : batch.phase.releasing = true) : phase.ended = true := by
  cases moved with
  | call c at_ _ called =>
    cases call_calls called with
    | released => rfl
    | unwound => rfl
    | unprepared before => rw [before] at releasing; cases releasing
    | held before => rw [before] at releasing; cases releasing
    | lapsed => rfl
    | marked before => rw [before] at releasing; cases releasing
    | markedLate before => rw [before] at releasing; cases releasing
    | recorded before => rw [before] at releasing; cases releasing
  | error c reply at_ e called failed => exact absurd (replied reply at_ called) failed
  | publish bytes r rest n _ before => rw [before] at releasing; cases releasing
  | acknowledged r rest n _ before => rw [before] at releasing; cases releasing
  | refused r rest n e _ before => rw [before] at releasing; cases releasing
  | crash => rfl

theorem ended_step (taken : s.step a = some s') (known : s.batches owner = some batch)
    (ended : batch.phase.ended = true) :
    ∃ batch', s'.batches owner = some batch' ∧ batch'.phase = batch.phase := by
  obtain ⟨batch', known', _, _, ⟨_, rfl⟩ | moved⟩ := step_known_batch taken known
  · exact ⟨batch', known', rfl⟩
  · rw [moved.active] at ended
    cases ended

/-- A batch about to hand a row over does that next, or crashes. -/
theorem offer_step (taken : s.step a = some s') (known : s.batches owner = some batch)
    {bytes : List UInt8} {r : OutboxRecord} {rest : List OutboxRecord} {n : Nat}
    (phase : batch.phase = .offer bytes r rest n) :
    (s'.batches owner = some batch ∧ a.owner ≠ some owner) ∨ a = .publish owner ∨
      ∃ batch', s'.batches owner = some batch' ∧ batch'.phase = .crashed := by
  by_cases mine : a.owner = some owner
  · right
    cases a with
    | claim o relay plan reply =>
      obtain rfl := Option.some.inj mine
      obtain ⟨fresh, _⟩ := claim_cases taken
      cases fresh.symm.trans known
    | database o reply at_ =>
      obtain rfl := Option.some.inj mine
      obtain ⟨b, c, known', called, _⟩ := database_cases taken
      obtain rfl := Option.some.inj (known.symm.trans known')
      cases call_calls called <;> simp_all
    | publish o => exact .inl (congrArg Action.publish (Option.some.inj mine))
    | answer o result =>
      obtain rfl := Option.some.inj mine
      obtain ⟨b, _, _, _, known', phase', _⟩ := answer_cases taken
      obtain rfl := Option.some.inj (known.symm.trans known')
      cases phase.symm.trans phase'
    | crash o =>
      obtain rfl := Option.some.inj mine
      obtain ⟨b, known', _, rfl⟩ := crash_cases taken
      exact .inr ⟨_, if_pos rfl, rfl⟩
    | enqueue record startedAt => cases mine
    | append message => cases mine
    | purge olderThan => cases mine
    | tick elapsed => cases mine
  · exact .inl ⟨(step_other_batches taken mine).trans known, mine⟩

/- What one step appends to the history. -/
inductive EventStep (s : System) : Action → List Event → Prop where
  | silent (a : Action) : EventStep s a []
  | staged (record : OutboxRecord) (startedAt : Timestamp) :
      (∀ row ∈ s.table, row.toStaged.conflicts record.toStaged = false) →
      EventStep s (.enqueue record startedAt) [.staged record.toStaged]
  | called {owner : Uuid} {at_ : Timestamp} {b : Batch} {c : Call} : s.batches owner = some b →
      b.call s.table s.now owner at_ = some c → EventStep s (.database owner .ok at_) c.events
  | offered {owner : Uuid} {b : Batch} {bytes : List UInt8} {r : OutboxRecord}
      {rest : List OutboxRecord} {n : Nat} : s.batches owner = some b →
      b.phase = .offer bytes r rest n → EventStep s (.publish owner) [.offered owner r]
  | acknowledged {owner : Uuid} {b : Batch} {r : OutboxRecord}
    {rest : List OutboxRecord} {n : Nat} :
      s.batches owner = some b → b.phase = .publishing r rest n →
      EventStep s (.answer owner (.ok ())) [.acknowledged owner r]

theorem step_trace (taken : s.step a = some s') :
    ∃ events, s'.trace = s.trace ++ events ∧ EventStep s a events := by
  have silent : s.trace = s.trace ++ [] := (List.append_nil _).symm
  cases step_moves taken with
  | enqueued valid clear => exact ⟨_, rfl, .staged _ _ clear⟩
  | called known called => exact ⟨_, rfl, .called known called⟩
  | published known phase => exact ⟨_, rfl, .offered known phase⟩
  | acknowledged known phase present => exact ⟨_, rfl, .acknowledged known phase⟩
  | _ => exact ⟨[], silent, .silent _⟩

/-- A staged event is old or belongs to the row this step inserted. -/
theorem step_staged (taken : s.step a = some s') {staged : Staged}
    (member : Event.staged staged ∈ s'.trace) : Event.staged staged ∈ s.trace ∨
      ∃ record startedAt, a = .enqueue record startedAt ∧ record.toStaged = staged ∧
        record.row startedAt ∈ s'.table := by
  cases step_moves taken with
  | enqueued valid clear =>
    rcases List.mem_append.mp member with old | new
    · exact .inl old
    · obtain rfl := Event.staged.inj (List.mem_singleton.mp new)
      exact .inr ⟨_, _, rfl, rfl, List.mem_append_right _ List.mem_cons_self⟩
  | called known called =>
    rcases List.mem_append.mp member with old | new
    · exact .inl old
    · exact absurd new (call_stages_nothing called staged)
  | published known phase =>
    rcases List.mem_append.mp member with old | new
    · exact .inl old
    · cases List.mem_singleton.mp new
  | acknowledged known phase present =>
    rcases List.mem_append.mp member with old | new
    · exact .inl old
    · cases List.mem_singleton.mp new
  | _ => exact .inl member

/-- Only a publish call sends, and it sends the message of the row it offers. -/
theorem step_sent (taken : s.step a = some s') :
    s'.sent = s.sent ∨ ∃ owner batch bytes record rest n, a = .publish owner ∧
      s.batches owner = some batch ∧ batch.phase = .offer bytes record rest n ∧
      s'.sent = s.sent ++ [record.message bytes] := by
  cases step_moves taken with
  | published known phase => exact .inr ⟨_, _, _, _, _, _, rfl, known, phase, rfl⟩
  | _ => exact .inl rfl

/-- The broker's log is append-only and grows by messages it was sent. -/
theorem step_log (taken : s.step a = some s') :
    s'.log = s.log ∨ ∃ message ∈ s.sent, a = .append message ∧
      s'.log = s.log ++ [⟨message, s.now⟩] := by
  cases step_moves taken with
  | appended sent => exact .inr ⟨_, sent, rfl, rfl⟩
  | _ => exact .inl rfl

theorem step_now (taken : s.step a = some s') :
    s'.now = s.now ∨ ∃ elapsed : Nat, a = .tick elapsed ∧
      s' = { s with now := s.now + elapsed } := by
  cases step_moves taken with
  | ticked => exact .inr ⟨_, rfl, rfl⟩
  | _ => exact .inl rfl

end External

end FiduciaMessaging
