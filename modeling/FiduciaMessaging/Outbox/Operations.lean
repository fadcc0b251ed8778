import FiduciaMessaging.Outbox.Invariants

/-! The table under arbitrary callers. Any worker may issue any statement with ids,
owners and arguments of its own choosing; the drainer is one such caller. -/
namespace FiduciaMessaging

open RowSet Runs

inductive Operation where
  | enqueue (record : OutboxRecord) (startedAt : Timestamp)
  | claim (owner : Uuid) (claimTtl : Duration) (limit : Int) (plan : Plan)
  | markPublished (id owner : Uuid) (at_ : Timestamp)
  | markFailed (id owner : Uuid) (error : String)
  | reschedule (id owner : Uuid) (error : String)
  | release (owner : Uuid)
  | purge (olderThan : Duration)
  | tick (elapsed : Nat)

/- The table and the database clock. -/
structure Store where
  now : Timestamp
  table : List OutboxRow

def Store.initial (now : Timestamp) : Store := ⟨now, []⟩

def Operation.purges : Operation → Bool
  | .purge _ => true
  | _ => false

/-- What every statement keeps of a row: the two lease columns go together, only a
pending row is leased, and the publish time belongs to the status. -/
structure OutboxRow.Consistent (row : OutboxRow) : Prop where
  paired : row.claimOwner.isSome = row.claimExpiresAt.isSome
  waiting : row.claimOwner.isSome = true → row.status = .pending
  stamped : row.publishedAt.isSome = true ↔ row.status = .published
  counted : 0 ≤ row.attempts

/- A row of the table that is under no lease, with the columns its delivery goes by. -/
structure OutboxRow.Rests (row : OutboxRow) (table : List OutboxRow) (status : OutboxStatus)
    (attempts : Int) (availableAt : Timestamp) (lastError : Option String) : Prop where
  stored : row ∈ table
  status : row.status = status
  attempts : row.attempts = attempts
  availableAt : row.availableAt = availableAt
  lastError : row.lastError = lastError
  unleased : row.claimOwner = none ∧ row.claimExpiresAt = none

section External

variable [External]

/-- One statement. A refused one leaves the table alone. -/
def Store.step (s : Store) : Operation → Option Store
  | .enqueue record startedAt =>
    if startedAt ≤ s.now then
      match insertOutboxRow s.table startedAt record with
      | .ok table => some { s with table := table }
      | .error _ => some s
    else none
  | .claim owner claimTtl limit plan =>
    match claimPendingOutbox s.table s.now owner claimTtl limit plan with
    | .ok (table, _) => some { s with table := table }
    | .error _ => some s
  | .markPublished id owner at_ => some { s with table := (markPublished s.table id owner at_).1 }
  | .markFailed id owner error => some { s with table := (markFailed s.table id owner error).1 }
  | .reschedule id owner error =>
    some { s with table := (reschedulePublish s.table s.now id owner error).1 }
  | .release owner => some { s with table := (releaseOutboxClaims s.table owner).1 }
  | .purge olderThan =>
    match purgePublishedOutbox s.table s.now olderThan with
    | .ok (table, _) => some { s with table := table }
    | .error _ => some s
  | .tick elapsed => some { s with now := s.now + elapsed }

/- Only records that come out of a constructor are enqueued. -/
def Operation.Genuine : Operation → Prop
  | .enqueue record _ => record.Built
  | _ => True

end External

variable {s t : Store} {op : Operation} {row row' : OutboxRow} {owner : Uuid}

/- What a statement does to a row that stays. -/
inductive OutboxRow.Moves (now : Timestamp) (row : OutboxRow) : OutboxRow → Prop where
  | kept : Moves now row row
  | leased (owner : Uuid) (expires : Timestamp) :
      row.claimable now = true → Moves now row (row.leased owner expires)
  | settled {row' : OutboxRow} (owner : Uuid) :
      row.claimOwner = some owner → row.Settles row' → Moves now row row'

theorem OutboxRow.Moves.toStaged {now : Timestamp} (moved : row.Moves now row') :
    row'.toStaged = row.toStaged := by
  cases moved with
  | kept => rfl
  | leased => rfl
  | settled _ _ settles => exact settles.toStaged

theorem OutboxRow.Consistent.moves {now : Timestamp} (before : row.Consistent)
    (moved : row.Moves now row') : row'.Consistent := by
  have unpublished (pending : row.status = .pending) : row.publishedAt.isSome ≠ true := by
    intro stamped
    rw [before.stamped.mp stamped] at pending
    contradiction
  cases moved with
  | kept => exact before
  | leased owner expires due =>
    have pending := (claimable_iff.mp due).1
    constructor
    · rfl
    · intro _
      exact pending
    · exact before.stamped
    · exact Int.add_nonneg before.counted Int.one_nonneg
  | settled owner owned settles =>
    have pending := before.waiting (by rw [owned]; rfl)
    cases settles with
    | published at_ =>
      constructor
      · rfl
      · intro impossible
        cases impossible
      · exact ⟨fun _ => rfl, fun _ => rfl⟩
      · exact before.counted
    | parked error =>
      constructor
      · rfl
      · intro impossible
        cases impossible
      · constructor
        · intro stamped
          exact absurd stamped (unpublished pending)
        · intro impossible
          cases impossible
      · exact before.counted
    | rescheduled at_ error =>
      constructor
      · rfl
      · intro impossible
        cases impossible
      · exact before.stamped
      · exact before.counted
    | released =>
      constructor
      · rfl
      · intro impossible
        cases impossible
      · exact before.stamped
      · exact le_max_right _ _

/-- A row that is published or parked is leased by no claim and settled by no caller. -/
theorem OutboxRow.Consistent.final {now : Timestamp} (before : row.Consistent)
    (terminal : row.status ≠ .pending) (moved : row.Moves now row') : row' = row := by
  cases moved with
  | kept => rfl
  | leased owner expires due => exact absurd (claimable_iff.mp due).1 terminal
  | settled owner owned => exact absurd (before.waiting (by rw [owned]; rfl)) terminal

section Step

variable [External]

/- Everything one statement can do. -/
inductive StoreStep (s : Store) : Operation → Store → Prop where
  | same (op : Operation) : StoreStep s op s
  | inserted (record : OutboxRecord) (startedAt : Timestamp) : record.validate = .ok () →
      (∀ row ∈ s.table, row.toStaged.conflicts record.toStaged = false) →
      StoreStep s (.enqueue record startedAt) ⟨s.now, s.table ++ [record.row startedAt]⟩
  | mapped (op : Operation) (g : OutboxRow → OutboxRow) : op.purges = false →
      (∀ row ∈ s.table, row.Moves s.now (g row)) → StoreStep s op ⟨s.now, s.table.map g⟩
  | purged (olderThan : Duration) (cutoff : Timestamp) : StoreStep s (.purge olderThan)
      ⟨s.now, deleteWhere (fun row => row.purgeable cutoff) s.table⟩
  | ticked (elapsed : Nat) : StoreStep s (.tick elapsed) ⟨s.now + elapsed, s.table⟩

theorem StoreStep.updated {p : OutboxRow → Bool} {f : OutboxRow → OutboxRow} (op : Operation)
    (keeps : op.purges = false) (marks : ∀ row ∈ s.table, p row = true →
      row.Moves s.now (f row)) :
    StoreStep s op ⟨s.now, updateWhere p f s.table⟩ := by
  apply StoreStep.mapped op (fun row => if p row then f row else row) keeps
  intro row member
  cases matched : p row with
  | false => exact .kept
  | true => exact marks row member matched

theorem storeStep_of_step (unique : (s.table.map (·.id)).Nodup) (taken : s.step op = some t) :
    StoreStep s op t := by
  cases op with
  | enqueue record startedAt =>
    simp only [Store.step] at taken
    split at taken
    · split at taken
      · rename_i after inserted
        obtain ⟨valid, rfl⟩ := insertOutboxRow_ok inserted
        obtain rfl := Option.some.inj taken
        unfold insertUnless
        split
        · exact .same _
        · rename_i free
          have clear : ∀ row ∈ s.table, row.toStaged.conflicts record.toStaged = false := by
            simpa using free
          exact .inserted record startedAt valid clear
      · obtain rfl := Option.some.inj taken
        exact .same _
    · contradiction
  | claim owner claimTtl limit plan =>
    simp only [Store.step] at taken
    split at taken
    · rename_i after records claimed
      obtain rfl := Option.some.inj taken
      obtain ⟨ms, _, spec⟩ := claimPendingOutbox_spec claimed
      rw [spec.leases]
      apply StoreStep.updated _ rfl
      intro row member matched
      have picked := (spec.picked_iff unique member).mp matched
      exact .leased _ _ (spec.due row picked).2.1
    · obtain rfl := Option.some.inj taken
      exact .same _
  | markPublished id owner at_ =>
    obtain rfl := Option.some.inj taken
    apply StoreStep.updated _ rfl
    intro row _ matched
    exact .settled owner (ownedAs_iff.mp matched).2 (.published at_)
  | markFailed id owner error =>
    obtain rfl := Option.some.inj taken
    apply StoreStep.updated _ rfl
    intro row _ matched
    exact .settled owner (ownedAs_iff.mp matched).2 (.parked error)
  | reschedule id owner error =>
    obtain rfl := Option.some.inj taken
    apply StoreStep.updated _ rfl
    intro row _ matched
    obtain ⟨_, owned, pending⟩ := pendingAs_iff.mp matched
    exact .settled owner owned (.rescheduled s.now error pending)
  | release owner =>
    obtain rfl := Option.some.inj taken
    apply StoreStep.updated _ rfl
    intro row _ matched
    obtain ⟨pending, owned⟩ := pendingOf_iff.mp matched
    exact .settled owner owned (.released pending)
  | purge olderThan =>
    simp only [Store.step] at taken
    split at taken
    · rename_i after n purged
      obtain rfl := Option.some.inj taken
      obtain ⟨cutoff, rfl⟩ := purgePublishedOutbox_ok purged
      exact .purged olderThan cutoff
    · obtain rfl := Option.some.inj taken
      exact .same _
  | tick elapsed =>
    obtain rfl := Option.some.inj taken
    exact .ticked elapsed

/- Rows of every reachable store: apart on the unique columns, and each consistent. -/
structure Store.Sound (s : Store) : Prop where
  apart : s.table.Pairwise OutboxRow.Apart
  rows : ∀ row ∈ s.table, row.Consistent

omit [External] in
theorem sound_initial (now : Timestamp) : (Store.initial now).Sound where
  apart := List.Pairwise.nil
  rows := by
    intro row member
    cases member

/-- A constructor's record starts unleased, unpublished and with no attempts. -/
theorem row_consistent {record : OutboxRecord} (built : record.Built)
    (startedAt : Timestamp) : (record.row startedAt).Consistent := by
  obtain ⟨pending, zero⟩ := built.starts
  constructor
  · rfl
  · intro impossible
    cases impossible
  · constructor
    · intro impossible
      cases impossible
    · intro published
      change record.status = .published at published
      rw [pending] at published
      contradiction
  · exact le_min (Int.natCast_nonneg _) (by decide)

theorem Store.Sound.step (sound : s.Sound) (genuine : op.Genuine) (taken : s.step op = some t) :
    t.Sound := by
  cases storeStep_of_step (unique_of_apart sound.apart) taken with
  | same => exact sound
  | inserted record startedAt valid clear =>
    constructor
    · apply List.pairwise_append.mpr
      refine ⟨sound.apart, List.pairwise_singleton _ _, ?_⟩
      intro row inside new single
      rw [List.mem_singleton.mp single]
      exact clear row inside
    · intro row member
      rcases List.mem_append.mp member with old | new
      · exact sound.rows row old
      · rw [List.mem_singleton.mp new]
        exact row_consistent genuine startedAt
  | mapped _ g keeps moves =>
    constructor
    · apply apart_of_staged sound.apart
      rw [List.map_map]
      apply List.map_congr_left
      intro row member
      exact (moves row member).toStaged
    · intro row' member
      obtain ⟨row, inside, rfl⟩ := List.mem_map.mp member
      exact (sound.rows row inside).moves (moves row inside)
  | purged olderThan cutoff =>
    constructor
    · exact sound.apart.sublist (deleteWhere_sublist _ _)
    · intro row member
      exact sound.rows row (mem_deleteWhere.mp member).1
  | ticked elapsed => exact ⟨sound.apart, sound.rows⟩

theorem sound_of_reaches {ok : Store → Operation → Prop}
    (genuine : ∀ x op, ok x op → op.Genuine) (sound : s.Sound)
    (reached : Reaches Store.step ok s t) : t.Sound :=
  reached.invariant Store.Sound sound
    (fun _ _ _ before allowed taken => before.step (genuine _ _ allowed) taken)

end Step

/- The drainer as a caller. -/

def System.store (s : System) : Store := ⟨s.now, s.table⟩

/- The statement a step of the relay machine stands for is genuine if its enqueues are. -/
def Action.Genuine [External] : Action → Prop
  | .enqueue record _ => record.Built
  | _ => True

variable [External] {x y : System} {a : Action}

theorem call_operation {batch : Batch} {table : List OutboxRow} {now at_ : Timestamp} {c : Call}
    (called : batch.call table now owner at_ = some c) : c.table = table ∨
      ∃ op : Operation, op.Genuine ∧ op.purges = false ∧
        Store.step ⟨now, table⟩ op = some ⟨now, c.table⟩ := by
  cases call_calls called with
  | @unprepared r rest n error => exact .inr ⟨.markFailed r.id owner error, trivial, rfl, rfl⟩
  | held => exact .inl rfl
  | lapsed => exact .inl rfl
  | @marked r => exact .inr ⟨.markPublished r.id owner at_, trivial, rfl, rfl⟩
  | @markedLate r => exact .inr ⟨.markPublished r.id owner at_, trivial, rfl, rfl⟩
  | @recorded r error =>
    unfold recordFailure
    split
    · exact .inr ⟨.markFailed r.id owner error.toString, trivial, rfl, rfl⟩
    · exact .inr ⟨.reschedule r.id owner error.toString, trivial, rfl, rfl⟩
  | released => exact .inr ⟨.release owner, trivial, rfl, rfl⟩
  | unwound => exact .inr ⟨.release owner, trivial, rfl, rfl⟩

/-- Every step of the relay machine is one statement of a caller, or leaves the table alone. -/
theorem step_operation (genuine : a.Genuine) (taken : x.step a = some y) : y.store = x.store ∨
    ∃ op : Operation, op.Genuine ∧ x.store.step op = some y.store := by
  cases a with
  | enqueue record startedAt =>
    right
    refine ⟨.enqueue record startedAt, genuine, ?_⟩
    simp only [System.step, System.enqueue] at taken
    split at taken
    · rename_i begun
      cases inserted : insertOutboxRow x.table startedAt record with
      | error e =>
        rw [inserted] at taken
        obtain rfl := Option.some.inj taken
        simp [Store.step, System.store, begun, inserted]
      | ok table =>
        rw [inserted] at taken
        obtain rfl := Option.some.inj taken
        simp [Store.step, System.store, begun, inserted]
    · contradiction
  | claim o relay plan reply =>
    simp only [System.step, System.claim] at taken
    have claims {after : List OutboxRow} {records : List OutboxRecord}
        (claimed : claimPendingOutbox x.table x.now o relay.claimTtl relay.batchSize plan =
          .ok (after, records)) : ∃ op : Operation, op.Genuine ∧
          x.store.step op = some ⟨x.now, after⟩ := by
      refine ⟨.claim o relay.claimTtl relay.batchSize plan, trivial, ?_⟩
      simp only [Store.step, System.store, claimed]
    split at taken
    · contradiction
    · split at taken
      · obtain rfl := Option.some.inj taken
        exact .inl rfl
      · rename_i claimed
        obtain rfl := Option.some.inj taken
        exact .inr (claims claimed)
      · obtain rfl := Option.some.inj taken
        exact .inl rfl
      · rename_i claimed
        obtain rfl := Option.some.inj taken
        exact .inr (claims claimed)
  | database o reply at_ =>
    obtain ⟨b, c, _, called, ⟨_, rfl⟩ | ⟨e, _, rfl⟩ | ⟨e, _, rfl⟩⟩ :=
      database_cases taken
    · rcases call_operation called with same | ⟨op, genuine, _, step⟩
      · exact .inl (congrArg (Store.mk x.now) same)
      · exact .inr ⟨op, genuine, step⟩
    · exact .inl rfl
    · rcases call_operation called with same | ⟨op, genuine, _, step⟩
      · exact .inl (congrArg (Store.mk x.now) same)
      · exact .inr ⟨op, genuine, step⟩
  | publish o =>
    obtain ⟨_, _, _, _, _, _, _, rfl⟩ := publish_cases taken
    exact .inl rfl
  | answer o result =>
    obtain ⟨_, _, _, _, _, _, ⟨_, _, rfl⟩ | ⟨_, _, rfl⟩⟩ := answer_cases taken
    · exact .inl rfl
    · exact .inl rfl
  | crash o =>
    obtain ⟨_, _, _, rfl⟩ := crash_cases taken
    exact .inl rfl
  | append message =>
    obtain ⟨_, rfl⟩ := append_cases taken
    exact .inl rfl
  | purge olderThan =>
    right
    obtain rfl := Option.some.inj taken
    refine ⟨.purge olderThan, trivial, ?_⟩
    cases purged : purgePublishedOutbox x.table x.now olderThan with
    | error e => simp [Store.step, System.store, System.purge, purged]
    | ok result => simp [Store.step, System.store, System.purge, purged]
  | tick elapsed =>
    obtain rfl := Option.some.inj taken
    exact .inr ⟨.tick elapsed, trivial, rfl⟩

/-- Runs of relays, producers and sweepers are runs of statements. -/
theorem store_runs {ok : System → Action → Prop} (genuine : ∀ z b, ok z b → b.Genuine)
    (reached : Reaches System.step ok x y) :
    Reaches Store.step (fun _ op => op.Genuine) x.store y.store :=
  reached.component System.store
    (fun _ _ _ allowed taken => step_operation (genuine _ _ allowed) taken)

end FiduciaMessaging
