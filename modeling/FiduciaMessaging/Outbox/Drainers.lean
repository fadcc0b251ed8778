import FiduciaMessaging.Outbox.Operations
import FiduciaMessaging.Outbox.Ledger

/-! The two drainers: the transport-agnostic relay, which reports on a batch and goes on
after a failure, and the loop of the database-coupled drainer, which stops at the first
refused publish. Both run here alone, against a publisher with a state of its own. -/
namespace FiduciaMessaging

open RowSet Runs

/-- `Publisher::publish`, which may depend on all earlier calls. -/
abbrev Publisher (P : Type) := P → PublishedMessage → P × Except MessagingError Unit

structure RelayOutcome where
  published : List Uuid
  failed : List (Uuid × String)

/- What a relay leaves behind: its report, the calls it made and the publisher. -/
structure Relayed (P : Type) where
  outcome : RelayOutcome
  calls : List PublishedMessage
  publisher : P

/- The same of the database-coupled loop, with the count it returns and the table. -/
structure Drained (P : Type) where
  published : Nat
  table : List OutboxRow
  calls : List PublishedMessage
  publisher : P

/- The database clock and `Utc::now()` at the n-th database call of the loop. -/
structure Clock where
  now : Nat → Timestamp
  utc : Nat → Timestamp

variable {P : Type}

def Relayed.ok (later : Relayed P) (id : Uuid) (message : PublishedMessage) : Relayed P where
  outcome := ⟨id :: later.outcome.published, later.outcome.failed⟩
  calls := message :: later.calls
  publisher := later.publisher

def Relayed.err (later : Relayed P) (id : Uuid) (error : String) (call : List PublishedMessage) :
    Relayed P where
  outcome := ⟨later.outcome.published, (id, error) :: later.outcome.failed⟩
  calls := call ++ later.calls
  publisher := later.publisher

section Drain

variable [External] (publish : Publisher P)

/-- `Relay::drain`: every record is tried, and each lands in one of the two lists. -/
def Relay.drain : P → List OutboxRecord → Relayed P
  | p, [] => ⟨⟨[], []⟩, [], p⟩
  | p, record :: rest =>
    match record.prepare with
    | .error error => (Relay.drain p rest).err record.id error []
    | .ok bytes =>
      match publish p (record.message bytes) with
      | (p', .ok ()) => (Relay.drain p' rest).ok record.id (record.message bytes)
      | (p', .error error) =>
        (Relay.drain p' rest).err record.id error.toString [record.message bytes]

/-- `drain_claimed` with every database call answered. `n` counts the calls made so far. -/
def OutboxPublisher.drainClaimed (relay : OutboxPublisher) (clock : Clock) (owner : Uuid) :
    Nat → List OutboxRow → P → List OutboxRecord → Drained P
  | _, table, p, [] => ⟨0, table, [], p⟩
  | n, table, p, record :: rest =>
    match record.prepare with
    | .error error =>
      drainClaimed relay clock owner (n + 1) (markFailed table record.id owner error).1 p rest
    | .ok bytes =>
      if claimStillHeld table (clock.now n) record.id owner then
        match publish p (record.message bytes) with
        | (p', .ok ()) =>
          let (table, held) := markPublished table record.id owner (clock.utc (n + 1))
          let later := drainClaimed relay clock owner (n + 2) table p' rest
          { later with
            published := later.published + if held then 1 else 0
            calls := record.message bytes :: later.calls }
        | (p', .error error) =>
          let table := recordFailure relay table (clock.now (n + 1)) record owner error.toString
          ⟨0, (releaseOutboxClaims table owner).1, [record.message bytes], p'⟩
      -- the lease has lapsed; the rest of the batch is left to its expiry
      else ⟨0, table, [], p⟩

/- A batch cut right after the first record whose publish returned an error. -/
structure Cut where
  batch : List OutboxRecord
  refused : Option (OutboxRecord × MessagingError)
  tail : List OutboxRecord

def Cut.cons (record : OutboxRecord) (cut : Cut) : Cut := { cut with batch := record :: cut.batch }

def cutAtRefusal : P → List OutboxRecord → Cut
  | _, [] => ⟨[], none, []⟩
  | p, record :: rest =>
    match record.prepare with
    | .error _ => (cutAtRefusal p rest).cons record
    | .ok bytes =>
      match publish p (record.message bytes) with
      | (p', .ok ()) => (cutAtRefusal p' rest).cons record
      | (_, .error error) => ⟨[record], some (record, error), rest⟩

theorem cutAtRefusal_split (p : P) (rows : List OutboxRecord) :
    (cutAtRefusal publish p rows).batch ++ (cutAtRefusal publish p rows).tail = rows := by
  induction rows generalizing p with
  | nil => rfl
  | cons record rest ih =>
    unfold cutAtRefusal
    split
    · exact congrArg (record :: ·) (ih p)
    · split
      · exact congrArg (record :: ·) (ih _)
      · rfl

end Drain

/- A row without its lease. -/
def OutboxRow.unleased (row : OutboxRow) : OutboxRow :=
  { row with claimOwner := none, claimExpiresAt := none }

/- The record a claim returns for a row. -/
def OutboxRow.claimed (row : OutboxRow) (owner : Uuid) (expires : Timestamp) : OutboxRecord :=
  (row.leased owner expires).intoRecord

/- The records in hand are exactly the rows leased to the owner, each as it was picked. -/
structure InHand (owner : Uuid) (expires : Timestamp) (picked table : List OutboxRow)
    (rows : List OutboxRecord) : Prop where
  unique : (table.map (·.id)).Nodup
  distinct : (rows.map (·.id)).Nodup
  due : ∀ row ∈ picked, row.status = .pending ∧ 0 ≤ row.attempts ∧
    row.attempts + 1 ≤ i32Max
  leased : ∀ r ∈ rows, ∃ row ∈ picked, r = row.claimed owner expires ∧
    row.leased owner expires ∈ table
  only : ∀ row ∈ table, row.claimOwner = some owner → ∃ r ∈ rows, r.id = row.id

section InHand

variable {owner : Uuid} {expires now : Timestamp} {picked table : List OutboxRow}
  {record : OutboxRecord} {rest rows : List OutboxRecord} {row : OutboxRow}

theorem ownedAs_other {id : Uuid} (other : row.id ≠ id) : row.ownedAs id owner = false := by
  apply Bool.eq_false_iff.mpr
  intro matched
  exact other (ownedAs_iff.mp matched).1

theorem InHand.pick (hand : InHand owner expires picked table (record :: rest)) :
    ∃ row ∈ picked, record = row.claimed owner expires ∧
      row.leased owner expires ∈ table ∧
      (row.leased owner expires).ownedAs record.id owner = true := by
  obtain ⟨row, chosen, rfl, inside⟩ := hand.leased record List.mem_cons_self
  exact ⟨row, chosen, rfl, inside, ownedAs_iff.mpr ⟨rfl, rfl⟩⟩

/-- A mark of the first record in hand leaves the other records in hand. -/
theorem InHand.marked (hand : InHand owner expires picked table (record :: rest))
    {f : OutboxRow → OutboxRow} (staged : ∀ row, (f row).toStaged = row.toStaged)
    (cleared : ∀ row, (f row).claimOwner = none) :
    InHand owner expires picked (updateWhere (OutboxRow.ownedAs record.id owner) f table) rest := by
  have apart := List.nodup_cons.mp hand.distinct
  refine ⟨?_, apart.2, hand.due, ?_, ?_⟩
  · rw [map_updateWhere (·.id) (fun row _ _ => congrArg Staged.id (staged row))]
    exact hand.unique
  · intro r later
    obtain ⟨row, chosen, rfl, inside⟩ := hand.leased r (List.mem_cons_of_mem _ later)
    refine ⟨row, chosen, rfl, mem_updateWhere_of_miss inside (ownedAs_other ?_)⟩
    intro same
    exact apart.1 (List.mem_map.mpr ⟨_, later, same⟩)
  · intro row' member owned
    obtain ⟨row, inside, rfl⟩ := mem_updateWhere.mp member
    cases matched : row.ownedAs record.id owner with
    | true => simp [matched, cleared] at owned
    | false =>
      simp only [matched, Bool.false_eq_true, if_false] at owned ⊢
      obtain ⟨r, here, same⟩ := hand.only row inside owned
      rcases List.mem_cons.mp here with rfl | later
      · rw [ownedAs_iff.mpr ⟨same.symm, owned⟩] at matched
        contradiction
      · exact ⟨r, later, same⟩

/-- An owner-conditioned mark of a record in hand matches one row. -/
theorem InHand.affected (hand : InHand owner expires picked table (record :: rest)) :
    affected (OutboxRow.ownedAs record.id owner) table = 1 := by
  obtain ⟨row, _, rfl, inside, matched⟩ := hand.pick
  apply affected_eq_one (·.id) hand.unique inside matched
  intro other _ also
  exact (ownedAs_iff.mp also).1

/-- While the clock is short of the expiry, the probe finds the lease of a record in hand. -/
theorem InHand.live (hand : InHand owner expires picked table (record :: rest))
    (short : now < expires) : claimStillHeld table now record.id owner = true := by
  obtain ⟨row, _, _, inside, matched⟩ := hand.pick
  apply List.any_eq_true.mpr
  refine ⟨_, inside, ?_⟩
  rw [matched, Bool.true_and]
  exact decide_eq_true short

/-- A row that is not in hand is not the owner's. -/
theorem InHand.unowned (hand : InHand owner expires picked table rows) (inside : row ∈ table)
    (outside : ∀ r ∈ rows, r.id ≠ row.id) : row.claimOwner ≠ some owner := by
  intro owned
  obtain ⟨r, here, same⟩ := hand.only row inside owned
  exact outside r here same

/-- A release gives back the rows in hand as they were picked, and no others. -/
theorem InHand.released (hand : InHand owner expires picked table rows) :
    (∀ r ∈ rows, ∃ row ∈ picked, row.id = r.id ∧
      row.unleased ∈ (releaseOutboxClaims table owner).1) ∧
    ∀ row ∈ table, (∀ r ∈ rows, r.id ≠ row.id) →
      row ∈ (releaseOutboxClaims table owner).1 := by
  constructor
  · intro r here
    obtain ⟨row, chosen, rfl, inside⟩ := hand.leased r here
    obtain ⟨pending, nonneg, _⟩ := hand.due row chosen
    have back : (row.leased owner expires).released = row.unleased := by
      have attempts : max (row.attempts + 1 - 1) 0 = row.attempts := by omega
      simp only [OutboxRow.released, OutboxRow.leased, OutboxRow.unleased, attempts]
    refine ⟨row, chosen, rfl, back ▸ mem_updateWhere_of_match inside ?_⟩
    exact pendingOf_iff.mpr ⟨pending, rfl⟩
  · intro row inside outside
    apply mem_updateWhere_of_miss inside
    apply Bool.eq_false_iff.mpr
    intro matched
    exact hand.unowned inside outside (pendingOf_iff.mp matched).2

end InHand

/- What becomes of a row whose publish was refused, with its attempts as claimed. -/
def OutboxRow.refused (row : OutboxRow) (relay : OutboxPublisher) (now : Timestamp)
    (error : String) : OutboxRow :=
  if relay.maxAttempts ≤ row.attempts then row.parked error else row.rescheduled now error

/- The columns of a row after a refused publish: parked at `max_attempts`, put off otherwise. -/
structure RefusedRow (relay : OutboxPublisher) (table : List OutboxRow) (row : OutboxRow)
    (now : Timestamp) (error : String) (after : OutboxRow) : Prop where
  exhausted : relay.maxAttempts ≤ row.attempts + 1 →
    after.Rests table .failed (row.attempts + 1) row.availableAt (some error)
  retried : row.attempts + 1 < relay.maxAttempts →
    after.Rests table .pending (row.attempts + 1) (now + publishBackoff (row.attempts + 1))
      (some error)

theorem refusedRow {relay : OutboxPublisher} {table : List OutboxRow} {row : OutboxRow}
    {owner : Uuid} {expires now : Timestamp} {error : String} (pending : row.status = .pending)
    (stored : (row.leased owner expires).refused relay now error ∈ table) :
    RefusedRow relay table row now error ((row.leased owner expires).refused relay now error) := by
  constructor
  · intro exhausted
    have parked : (row.leased owner expires).refused relay now error =
        (row.leased owner expires).parked error := if_pos exhausted
    rw [parked] at stored ⊢
    exact ⟨stored, rfl, rfl, rfl, rfl, rfl, rfl⟩
  · intro short
    have retried : (row.leased owner expires).refused relay now error =
        (row.leased owner expires).rescheduled now error := if_neg (Int.not_le.mpr short)
    rw [retried] at stored ⊢
    exact ⟨stored, pending, rfl, rfl, rfl, rfl, rfl⟩

/- The table and count the database-coupled loop leaves, read against what the relay
reports on the batch cut at the first refused publish. -/
structure Agrees [External] (relay : OutboxPublisher) (clock : Clock) (owner : Uuid)
    (expires : Timestamp) (picked table : List OutboxRow) (rows : List OutboxRecord) (cut : Cut)
    (relayed : Relayed P) (drained : Drained P) : Prop where
  calls : drained.calls = relayed.calls
  publisher : drained.publisher = relayed.publisher
  counted : drained.published = relayed.outcome.published.length
  published : ∀ id ∈ relayed.outcome.published, ∃ row ∈ picked, row.id = id ∧
    ∃ at_, ((row.leased owner expires).published at_).Rests drained.table .published
      (row.attempts + 1) row.availableAt none
  rejected : ∀ r ∈ cut.batch, ∀ text, r.prepare = .error text →
    (r.id, text) ∈ relayed.outcome.failed ∧
    ∃ row ∈ picked, row.id = r.id ∧
      ((row.leased owner expires).parked text).Rests drained.table .failed (row.attempts + 1)
        row.availableAt (some text)
  refused : ∀ r error, cut.refused = some (r, error) →
    (r.id, error.toString) ∈ relayed.outcome.failed ∧ ∃ row ∈ picked, row.id = r.id ∧
    ∃ n, RefusedRow relay drained.table row (clock.now n) error.toString
      ((row.leased owner expires).refused relay (clock.now n) error.toString)
  reported : ∀ id text, (id, text) ∈ relayed.outcome.failed →
    (∃ r ∈ cut.batch, r.id = id ∧ r.prepare = .error text) ∨
    ∃ r error, cut.refused = some (r, error) ∧ r.id = id ∧ error.toString = text
  untouched : ∀ r ∈ cut.tail, ∃ row ∈ picked, row.id = r.id ∧
    row.unleased.Rests drained.table row.status row.attempts row.availableAt row.lastError
  others : ∀ row ∈ table, (∀ r ∈ rows, r.id ≠ row.id) → row ∈ drained.table
  staged : drained.table.map OutboxRow.toStaged = table.map OutboxRow.toStaged

section Agreement

variable [External] {publish : Publisher P} {relay : OutboxPublisher} {clock : Clock}
  {owner : Uuid} {expires now : Timestamp} {picked table : List OutboxRow} {record : OutboxRecord}
  {rest rows : List OutboxRecord} {row : OutboxRow} {error : String}

omit [External] in
/-- In hand, an owned row is pending, so the two owner conditions match the same rows. -/
theorem InHand.reschedules (hand : InHand owner expires picked table (record :: rest)) :
    (reschedulePublish table now record.id owner error).1 =
      updateWhere (OutboxRow.ownedAs record.id owner) (fun row => row.rescheduled now error)
        table := by
  apply List.map_congr_left
  intro row inside
  cases matched : row.ownedAs record.id owner with
  | false => simp [OutboxRow.pendingAs, matched]
  | true =>
    obtain ⟨mine, chosen, rfl, inside', _⟩ := hand.pick
    have same : row = mine.leased owner expires :=
      List.inj_on_of_nodup_map hand.unique inside inside' (ownedAs_iff.mp matched).1
    have pending : row.status = .pending := by
      rw [same]
      exact (hand.due mine chosen).1
    simp [OutboxRow.pendingAs, matched, pending]

omit [External] in
/-- Recording a refused publish settles the record's row and leaves the rest in hand. -/
theorem InHand.recorded (relay : OutboxPublisher) (now : Timestamp) (error : String)
    (hand : InHand owner expires picked table (record :: rest)) :
    InHand owner expires picked (recordFailure relay table now record owner error) rest ∧
    (∃ row ∈ picked, row.id = record.id ∧
      (row.leased owner expires).refused relay now error ∈
      recordFailure relay table now record owner error) ∧
    (∀ row ∈ table, row.id ≠ record.id →
      row ∈ recordFailure relay table now record owner error) ∧
    (recordFailure relay table now record owner error).map OutboxRow.toStaged =
      table.map OutboxRow.toStaged := by
  obtain ⟨row, chosen, made, inside, matched⟩ := hand.pick
  obtain ⟨_, nonneg, fits⟩ := hand.due row chosen
  have attempts : saturateI32 record.attempts = (row.leased owner expires).attempts := by
    rw [made]
    exact leased_attempts nonneg fits
  have sameId : row.id = record.id := by
    rw [made]
    rfl
  unfold recordFailure OutboxRow.refused
  by_cases exhausted : relay.maxAttempts ≤ (row.leased owner expires).attempts
  · rw [if_pos (attempts.symm ▸ exhausted)]
    refine ⟨hand.marked (fun _ => rfl) (fun _ => rfl), ⟨row, chosen, sameId, ?_⟩, ?_, ?_⟩
    · rw [if_pos exhausted]
      exact mem_updateWhere_of_match inside matched
    · intro other here apart
      exact mem_updateWhere_of_miss here (ownedAs_other apart)
    · exact map_updateWhere _ (fun _ _ _ => rfl)
  · rw [if_neg (attempts.symm ▸ exhausted), hand.reschedules]
    refine ⟨hand.marked (fun _ => rfl) (fun _ => rfl), ⟨row, chosen, sameId, ?_⟩, ?_, ?_⟩
    · rw [if_neg exhausted]
      exact mem_updateWhere_of_match inside matched
    · intro other here apart
      exact mem_updateWhere_of_miss here (ownedAs_other apart)
    · exact map_updateWhere _ (fun _ _ _ => rfl)

/-- The first record is rejected by validation in both drainers. -/
theorem Agrees.reject {after : List OutboxRow} {cut : Cut} {relayed : Relayed P}
    {drained : Drained P} (hand : InHand owner expires picked table (record :: rest))
    (bad : record.prepare = .error error)
    (marked : after = (markFailed table record.id owner error).1)
    (agrees : Agrees relay clock owner expires picked after rest cut relayed drained) :
    Agrees relay clock owner expires picked table (record :: rest) (cut.cons record)
      (relayed.err record.id error []) drained := by
  obtain ⟨mine, chosen, made, inside, matched⟩ := hand.pick
  have apart := (List.nodup_cons.mp hand.distinct).1
  have sameId : mine.id = record.id := by
    rw [made]
    rfl
  have parked : (mine.leased owner expires).parked error ∈ drained.table := by
    apply agrees.others
    · rw [marked]
      exact mem_updateWhere_of_match inside matched
    · intro r later same
      exact apart (List.mem_map.mpr ⟨r, later, same.trans sameId⟩)
  constructor
  · exact agrees.calls
  · exact agrees.publisher
  · exact agrees.counted
  · exact agrees.published
  · intro r here text failed
    rcases List.mem_cons.mp here with rfl | later
    · obtain rfl := Except.error.inj (bad.symm.trans failed)
      exact ⟨List.mem_cons_self, mine, chosen, sameId, parked, rfl, rfl, rfl, rfl, rfl, rfl⟩
    · obtain ⟨reported, row⟩ := agrees.rejected r later text failed
      exact ⟨List.mem_cons_of_mem _ reported, row⟩
  · intro r e stopped
    obtain ⟨reported, row⟩ := agrees.refused r e stopped
    exact ⟨List.mem_cons_of_mem _ reported, row⟩
  · intro id text reported
    rcases List.mem_cons.mp reported with first | later
    · obtain ⟨rfl, rfl⟩ := Prod.mk.inj first
      exact .inl ⟨record, List.mem_cons_self, rfl, bad⟩
    · rcases agrees.reported id text later with ⟨r, here, same⟩ | stopped
      · exact .inl ⟨r, List.mem_cons_of_mem _ here, same⟩
      · exact .inr stopped
  · exact agrees.untouched
  · intro row here outside
    apply agrees.others
    · rw [marked]
      exact mem_updateWhere_of_miss here
        (ownedAs_other (Ne.symm (outside record List.mem_cons_self)))
    · intro r later
      exact outside r (List.mem_cons_of_mem _ later)
  · rw [agrees.staged, marked]
    exact map_updateWhere _ (fun _ _ _ => rfl)

/-- The first record is published in both drainers. -/
theorem Agrees.accept {after : List OutboxRow} {at_ : Timestamp} {message : PublishedMessage}
    {bytes : List UInt8} {cut : Cut} {relayed : Relayed P} {drained : Drained P}
    (hand : InHand owner expires picked table (record :: rest))
    (ready : record.prepare = .ok bytes)
    (marked : after = (markPublished table record.id owner at_).1)
    (agrees : Agrees relay clock owner expires picked after rest cut relayed drained) :
    Agrees relay clock owner expires picked table (record :: rest) (cut.cons record)
      (relayed.ok record.id message)
      { drained with published := drained.published + 1, calls := message :: drained.calls } := by
  obtain ⟨mine, chosen, made, inside, matched⟩ := hand.pick
  have apart := (List.nodup_cons.mp hand.distinct).1
  have sameId : mine.id = record.id := by
    rw [made]
    rfl
  have settled : (mine.leased owner expires).published at_ ∈ drained.table := by
    apply agrees.others
    · rw [marked]
      exact mem_updateWhere_of_match inside matched
    · intro r later same
      exact apart (List.mem_map.mpr ⟨r, later, same.trans sameId⟩)
  constructor
  · exact congrArg (message :: ·) agrees.calls
  · exact agrees.publisher
  · exact congrArg (· + 1) agrees.counted
  · intro id reported
    rcases List.mem_cons.mp reported with rfl | later
    · exact ⟨mine, chosen, sameId, at_, settled, rfl, rfl, rfl, rfl, rfl, rfl⟩
    · exact agrees.published id later
  · intro r here text failed
    rcases List.mem_cons.mp here with rfl | later
    · rw [ready] at failed
      cases failed
    · exact agrees.rejected r later text failed
  · exact agrees.refused
  · intro id text reported
    rcases agrees.reported id text reported with ⟨r, here, same⟩ | stopped
    · exact .inl ⟨r, List.mem_cons_of_mem _ here, same⟩
    · exact .inr stopped
  · exact agrees.untouched
  · intro row here outside
    apply agrees.others
    · rw [marked]
      exact mem_updateWhere_of_miss here
        (ownedAs_other (Ne.symm (outside record List.mem_cons_self)))
    · intro r later
      exact outside r (List.mem_cons_of_mem _ later)
  · rw [agrees.staged, marked]
    exact map_updateWhere _ (fun _ _ _ => rfl)

/-- The first record's publish is refused: the relay's batch ends, the loop stops. -/
theorem agrees_refused {n : Nat} {message : PublishedMessage} {bytes : List UInt8}
    {e : MessagingError} {p : P}
    (hand : InHand owner expires picked table (record :: rest))
    (ready : record.prepare = .ok bytes) :
    Agrees relay clock owner expires picked table (record :: rest)
      ⟨[record], some (record, e), rest⟩
      ((⟨⟨[], []⟩, [], p⟩ : Relayed P).err record.id e.toString [message])
      ⟨0, (releaseOutboxClaims
        (recordFailure relay table (clock.now n) record owner e.toString) owner).1,
          [message], p⟩ := by
  obtain ⟨after, ⟨mine, chosen, sameId, settled⟩, kept, staged⟩ :=
    hand.recorded relay (clock.now n) e.toString
  have apart := (List.nodup_cons.mp hand.distinct).1
  obtain ⟨given, spared⟩ := after.released
  constructor
  · rfl
  · rfl
  · rfl
  · intro id reported
    cases reported
  · intro r here text failed
    obtain rfl := List.mem_singleton.mp here
    rw [ready] at failed
    cases failed
  · intro r e' stopped
    obtain ⟨rfl, rfl⟩ := Prod.mk.inj (Option.some.inj stopped)
    refine ⟨List.mem_cons_self, mine, chosen, sameId, n, refusedRow (hand.due mine chosen).1 ?_⟩
    apply spared _ settled
    intro r later same
    have staged : ((mine.leased owner expires).refused relay (clock.now n) e.toString).id =
        mine.id := by
      unfold OutboxRow.refused
      split <;> rfl
    exact apart (List.mem_map.mpr ⟨r, later, same.trans (staged.trans sameId)⟩)
  · intro id text reported
    obtain ⟨rfl, rfl⟩ := Prod.mk.inj (List.mem_singleton.mp reported)
    exact .inr ⟨record, e, rfl, rfl, rfl⟩
  · intro r here
    obtain ⟨row, picked, same, stored⟩ := given r here
    exact ⟨row, picked, same, stored, rfl, rfl, rfl, rfl, rfl, rfl⟩
  · intro row here outside
    apply spared
    · exact kept row here (Ne.symm (outside record List.mem_cons_self))
    · intro r later
      exact outside r (List.mem_cons_of_mem _ later)
  · rw [← staged]
    exact map_updateWhere _ (fun _ _ _ => rfl)

/-- With the lease alive throughout, the loop agrees with the relay on every batch in hand. -/
theorem drainClaimed_agrees (publish : Publisher P) (relay : OutboxPublisher)
    (alive : ∀ n, clock.now n < expires) (n : Nat) (p : P)
    (hand : InHand owner expires picked table rows) :
    Agrees relay clock owner expires picked table rows (cutAtRefusal publish p rows)
      (Relay.drain publish p (cutAtRefusal publish p rows).batch)
      (relay.drainClaimed publish clock owner n table p rows) := by
  induction rows generalizing n p table with
  | nil =>
    constructor
    · rfl
    · rfl
    · rfl
    · intro id reported
      cases reported
    · intro r here
      cases here
    · intro r e stopped
      cases stopped
    · intro id text reported
      cases reported
    · intro r here
      cases here
    · intro row inside _
      exact inside
    · rfl
  | cons record rest ih =>
    unfold cutAtRefusal OutboxPublisher.drainClaimed
    cases ready : record.prepare with
    | error text =>
      simp only [Cut.cons, Relay.drain, ready]
      exact .reject hand ready rfl (ih _ p (hand.marked (fun _ => rfl) (fun _ => rfl)))
    | ok bytes =>
      simp only [hand.live (alive n), if_true]
      cases answer : publish p (record.message bytes) with
      | mk p' result =>
        cases result with
        | ok u =>
          have held : (markPublished table record.id owner (clock.utc (n + 1))).2 = true := by
            simp [markPublished, hand.affected]
          simp only [Cut.cons, Relay.drain, ready, answer, held, if_true]
          exact .accept hand ready rfl (ih _ p' (hand.marked (fun _ => rfl) (fun _ => rfl)))
        | error e =>
          simp only [Relay.drain, ready, answer]
          exact agrees_refused hand ready

omit [External] in
/-- After the claim of a fresh owner the records it returned are in hand. -/
theorem inHand_of_claim {s : Store} (sound : s.Sound)
    (fresh : ∀ row ∈ s.table, row.claimOwner ≠ some owner) {after : List OutboxRow}
    {records : List OutboxRecord}
    (spec : ClaimedBy owner s.now expires s.table picked after records) :
    InHand owner expires picked after records := by
  have unique := unique_of_apart sound.apart
  constructor
  · have ids := congrArg (List.map Staged.id) spec.staged
    rw [List.map_map, List.map_map] at ids
    exact (congrArg List.Nodup ids).mpr unique
  · exact spec.records_distinct unique
  · intro row chosen
    obtain ⟨inside, due, fits⟩ := spec.due row chosen
    exact ⟨(claimable_iff.mp due).1, (sound.rows row inside).counted, fits⟩
  · intro r here
    obtain ⟨row, chosen, made⟩ := spec.returned here
    rcases spec.image unique (spec.due row chosen).1 with ⟨other, _⟩ | ⟨_, member⟩
    · exact absurd chosen other
    · exact ⟨row, chosen, made, member⟩
  · intro row' member owned
    obtain ⟨row, inside, ⟨_, rfl⟩ | ⟨chosen, rfl⟩⟩ := spec.origin unique member
    · exact absurd owned (fresh _ inside)
    · exact ⟨_, spec.returns.mem_iff.mpr (List.mem_map_of_mem chosen), rfl⟩

/-- On a batch just claimed whose lease stays alive the database-coupled loop makes the calls
of the relay on the batch cut at the first refused publish, marks what the relay reports, and
gives the rest of the batch back as it was before the claim. Other rows keep all columns. -/
theorem drainers_agree {s : Store} (sound : s.Sound)
    (fresh : ∀ row ∈ s.table, row.claimOwner ≠ some owner) {limit : Int} {plan : Plan}
    {after : List OutboxRow} {records : List OutboxRecord}
    (claimed : claimPendingOutbox s.table s.now owner relay.claimTtl limit plan =
      .ok (after, records))
    (alive : ∀ n, clock.now n < s.now + relay.claimTtl.asMillis * millisecond) (p : P) :
    ∃ picked, (∀ row ∈ picked, row ∈ s.table) ∧
      Agrees relay clock owner (s.now + relay.claimTtl.asMillis * millisecond) picked after records
        (cutAtRefusal publish p records)
        (Relay.drain publish p (cutAtRefusal publish p records).batch)
        (relay.drainClaimed publish clock owner 0 after p records) ∧
      ∀ row ∈ s.table, (∀ r ∈ records, r.id ≠ row.id) →
        row ∈ (relay.drainClaimed publish clock owner 0 after p records).table := by
  obtain ⟨ms, positive, spec⟩ := claimPendingOutbox_spec claimed
  obtain ⟨rfl, _⟩ := positiveMs_ok positive
  have agrees := drainClaimed_agrees publish relay alive 0 p (inHand_of_claim sound fresh spec)
  refine ⟨_, fun row chosen => (spec.due row chosen).1, agrees, ?_⟩
  intro row inside outside
  rcases spec.image (unique_of_apart sound.apart) inside with ⟨_, member⟩ | ⟨chosen, _⟩
  · exact agrees.others row member outside
  · have returned := spec.returns.mem_iff.mpr (List.mem_map_of_mem chosen)
    exact absurd rfl (outside _ returned)

end Agreement

section Sample

attribute [local instance] Sample.external

open Sample

/- A broker that acknowledges its first message and refuses the next. -/
def faltering : Publisher Nat := fun calls _ =>
  (calls + 1, if calls = 0 then .ok () else .error (.transport "no responders"))

def promptClock : Clock := ⟨fun _ => 2, fun _ => 2⟩

def twoStaged : List Operation := [.enqueue order1 0, .enqueue order2 0, .tick 1]

/- Both rows are claimed; the first is published and the second rescheduled. -/
theorem drainers_agree_faltering : ∃ s after records,
    run Store.step (.initial 0) twoStaged = some s ∧
    claimPendingOutbox s.table s.now 7 OutboxPublisher.new.claimTtl 100 plan =
      .ok (after, records) ∧
    (OutboxPublisher.new.drainClaimed faltering promptClock 7 0 after 0 records).table.map
      (fun row => (row.status, row.availableAt, row.claimOwner)) =
      [(.published, 0, none), (.pending, 1000002, none)] ∧
    ∃ picked, (∀ row ∈ picked, row ∈ s.table) ∧
      Agrees .new promptClock 7 300000001 picked after records (cutAtRefusal faltering 0 records)
        (Relay.drain faltering 0 (cutAtRefusal faltering 0 records).batch)
        (OutboxPublisher.new.drainClaimed faltering promptClock 7 0 after 0 records) := by
  have ends : (run Store.step (.initial 0) twoStaged).bind (fun s =>
      (claimPendingOutbox s.table s.now 7 OutboxPublisher.new.claimTtl 100 plan).toOption.map
        (fun claimed => (s.now == 1 && s.table.all (fun row => row.claimOwner.isNone),
          (OutboxPublisher.new.drainClaimed faltering promptClock 7 0 claimed.1 0
            claimed.2).table.map (fun row => (row.status, row.availableAt, row.claimOwner))))) =
      some (true, [(.published, 0, none), (.pending, 1000002, none)]) := by
    decide +kernel
  obtain ⟨s, taken, view⟩ := Option.bind_eq_some_iff.mp ends
  obtain ⟨⟨after, records⟩, claims, view⟩ := Option.map_eq_some_iff.mp view
  obtain ⟨before, rows⟩ := Prod.mk.inj view
  simp only [Bool.and_eq_true, beq_iff_eq, List.all_eq_true] at before
  obtain ⟨clock, unleased⟩ := before
  have claimed : claimPendingOutbox s.table s.now 7 OutboxPublisher.new.claimTtl 100 plan =
      .ok (after, records) := by
    cases result : claimPendingOutbox s.table s.now 7 OutboxPublisher.new.claimTtl 100 plan with
    | error e =>
      rw [result] at claims
      cases claims
    | ok pair =>
      rw [result] at claims
      exact congrArg Except.ok (Option.some.inj claims)
  have genuine : ∀ op ∈ twoStaged, op.Genuine := by
    intro op member
    simp only [twoStaged, List.mem_cons, List.not_mem_nil, or_false] at member
    rcases member with rfl | rfl | rfl
    all_goals first | exact trivial | exact .pending _ _ _ _ _
  have sound := sound_of_reaches (fun _ _ genuine => genuine) (sound_initial 0)
    (reaches_of_run (fun _ op => op.Genuine) _ taken (fun _ => genuine))
  have fresh : ∀ row ∈ s.table, row.claimOwner ≠ some 7 := by
    intro row inside owned
    have none_ := unleased row inside
    rw [owned] at none_
    cases none_
  have alive : ∀ n, promptClock.now n <
      s.now + OutboxPublisher.new.claimTtl.asMillis * millisecond := by
    intro _
    rw [clock]
    change (2 : Int) < 1 + OutboxPublisher.new.claimTtl.asMillis * millisecond
    decide
  obtain ⟨picked, before, agrees, _⟩ : ∃ picked, (∀ row ∈ picked, row ∈ s.table) ∧
      Agrees .new promptClock 7 (s.now + OutboxPublisher.new.claimTtl.asMillis * millisecond) picked
        after records (cutAtRefusal faltering 0 records)
        (Relay.drain faltering 0 (cutAtRefusal faltering 0 records).batch)
        (OutboxPublisher.new.drainClaimed faltering promptClock 7 0 after 0 records) ∧ _ :=
    drainers_agree sound fresh claimed alive 0
  rw [clock] at agrees
  exact ⟨s, after, records, taken, claimed, rows, picked, before, agrees⟩

end Sample

end FiduciaMessaging
