import FiduciaMessaging.Outbox.Steps
import Mathlib.Data.List.Pairwise

/-! Invariants of every run, whatever is enqueued: rows stay apart on every
unique column, owners are drawn batches, and a record held by a batch is a
snapshot of the row it leases. -/
namespace FiduciaMessaging

open RowSet

variable {s s' : System} {a : Action} {row row' : OutboxRow} {owner : Uuid}
  {batch : Batch}

/- How a row that stays in the table moves in one step. -/
inductive RowMove [External] (s : System) (a : Action) (row : OutboxRow) : OutboxRow → Prop where
  | kept : RowMove s a row row
  | leased (owner : Uuid) (relay : OutboxPublisher) (plan : Plan) (reply : Reply) (ms : Int) :
      a = .claim owner relay plan reply → s.batches owner = none →
      positiveMs relay.claimTtl "outbox claim TTL" = .ok ms → row.claimable s.now = true →
      row ∈ claimCandidates s.table s.now relay.batchSize plan →
      RowMove s a row (row.leased owner (s.now + ms * millisecond))
  | settled (owner : Uuid) (reply : Reply) (at_ : Timestamp) (row' : OutboxRow) (b : Batch) :
      a = .database owner reply at_ → row.claimOwner = some owner → row.Settles row' →
      s.batches owner = some b → (∀ e, reply ≠ .failed e) →
        RowCall b s.now owner at_ row row' →
      RowMove s a row row'

theorem RowMove.toStaged [External] (moved : RowMove s a row row') :
    row'.toStaged = row.toStaged := by
  cases moved with
  | kept => rfl
  | leased => rfl
  | settled owner reply at_ _ _ _ _ settles => exact settles.toStaged

theorem conflicts_false {a b : Staged} : a.conflicts b = false ↔
    a.id ≠ b.id ∧ a.dedupId ≠ b.dedupId ∧
      ¬ (a.tenantId = b.tenantId ∧ a.idempotencyKey = b.idempotencyKey) := by
  simp [Staged.conflicts, and_assoc]

/- Two rows that no unique constraint relates. -/
def OutboxRow.Apart (a b : OutboxRow) : Prop := a.toStaged.conflicts b.toStaged = false

instance : Std.Symm OutboxRow.Apart where
  symm a b free := by
    have h := conflicts_false.mp free
    exact conflicts_false.mpr ⟨h.1.symm, h.2.1.symm,
      fun same => h.2.2 ⟨same.1.symm, same.2.symm⟩⟩

theorem unique_of_apart {table : List OutboxRow} (apart : table.Pairwise OutboxRow.Apart) :
    (table.map (·.id)).Nodup :=
  List.pairwise_map.mpr (apart.imp (fun free => (conflicts_false.mp free).1))

theorem same_of_apart {table : List OutboxRow} (apart : table.Pairwise OutboxRow.Apart)
    {other : OutboxRow} (inside : row ∈ table) (inside' : other ∈ table)
    (clash : row.toStaged.conflicts other.toStaged = true) : row = other := by
  by_contra different
  have free := apart.forall inside inside' different
  rw [OutboxRow.Apart, clash] at free
  contradiction

/-- A table whose staged columns did not change stays apart. -/
theorem apart_of_staged {table after : List OutboxRow} (apart : table.Pairwise OutboxRow.Apart)
    (same : after.map OutboxRow.toStaged = table.map OutboxRow.toStaged) :
    after.Pairwise OutboxRow.Apart := by
  have staged : (table.map OutboxRow.toStaged).Pairwise (fun x y => x.conflicts y = false) :=
    List.pairwise_map.mpr apart
  rw [← same, List.pairwise_map] at staged
  exact staged

structure Tracked (s : System) : Prop where
  apart : s.table.Pairwise OutboxRow.Apart
  drawn : ∀ row ∈ s.table, ∀ o, row.claimOwner = some o → ∃ b, s.batches o = some b
  snapshot : ∀ o b, s.batches o = some b → ∀ record ∈ b.phase.held, ∀ row ∈ s.table,
    row.id = record.id → row.claimOwner = some o → row.toStaged = record.toStaged

theorem tracked_initial (now : Timestamp) : Tracked (.initial now) where
  apart := List.Pairwise.nil
  drawn := by
    intro row member
    cases member
  snapshot := by
    intro o b known
    cases known

section Apart

variable [External] (apart : s.table.Pairwise OutboxRow.Apart)
include apart

/-- A row after a step is an earlier row that moved, or the one just inserted. -/
theorem row_origin (taken : s.step a = some s') (member : row' ∈ s'.table) :
    (∃ row ∈ s.table, RowMove s a row row') ∨
      ∃ record startedAt, a = .enqueue record startedAt ∧ row' = record.row startedAt ∧
        record.validate = .ok () ∧
        ∀ row ∈ s.table, row.toStaged.conflicts record.toStaged = false := by
  have shape := step_table taken
  generalize s'.table = after at shape member
  cases shape with
  | same => exact .inl ⟨row', member, .kept⟩
  | inserted record startedAt valid clear =>
    rcases List.mem_append.mp member with old | new
    · exact .inl ⟨row', old, .kept⟩
    · exact .inr ⟨record, startedAt, rfl, List.mem_singleton.mp new, valid, clear⟩
  | claimed fresh positive spec =>
    obtain ⟨row, inside, ⟨_, rfl⟩ | ⟨picked, rfl⟩⟩ :=
      spec.origin (unique_of_apart apart) member
    · exact .inl ⟨_, inside, .kept⟩
    · exact .inl ⟨row, inside,
        .leased _ _ _ _ _ rfl fresh positive (spec.due row picked).2.1 picked⟩
  | called known effective called =>
    obtain ⟨g, mapped, rows⟩ := call_maps called
    obtain ⟨row, inside, rfl⟩ := List.mem_map.mp (mapped ▸ member)
    rcases rows row with same | changed
    · exact .inl ⟨row, inside, same.symm ▸ .kept⟩
    · obtain ⟨owned, settles⟩ := changed.settles
      exact .inl ⟨row, inside, .settled _ _ _ _ _ rfl owned settles known effective changed⟩
  | purged olderThan cutoff => exact .inl ⟨row', (mem_deleteWhere.mp member).1, .kept⟩

/-- A row stays through a step, possibly moved, unless a purge deletes it as published. -/
theorem row_image (taken : s.step a = some s') (member : row ∈ s.table) :
    (∃ row' ∈ s'.table, RowMove s a row row') ∨
      ((∃ olderThan, a = .purge olderThan) ∧ row.status = .published) := by
  have shape := step_table taken
  generalize s'.table = after at shape
  cases shape with
  | same => exact .inl ⟨row, member, .kept⟩
  | inserted record startedAt valid clear =>
    exact .inl ⟨row, List.mem_append_left _ member, .kept⟩
  | claimed fresh positive spec =>
    obtain ⟨_, inside⟩ | ⟨picked, inside⟩ := spec.image (unique_of_apart apart) member
    · exact .inl ⟨_, inside, .kept⟩
    · exact .inl ⟨_, inside, .leased _ _ _ _ _ rfl fresh positive
        (spec.due row picked).2.1 picked⟩
  | called known effective called =>
    obtain ⟨g, mapped, rows⟩ := call_maps called
    have inside : g row ∈ _ := mapped.symm ▸ List.mem_map_of_mem member
    rcases rows row with same | changed
    · exact .inl ⟨g row, inside, same.symm ▸ .kept⟩
    · obtain ⟨owned, settles⟩ := changed.settles
      exact .inl ⟨g row, inside, .settled _ _ _ _ _ rfl owned settles known effective changed⟩
  | purged olderThan cutoff =>
    cases old : row.purgeable cutoff with
    | false => exact .inl ⟨row, mem_deleteWhere.mpr ⟨member, old⟩, .kept⟩
    | true =>
      simp only [OutboxRow.purgeable, Bool.and_eq_true, beq_iff_eq] at old
      exact .inr ⟨⟨olderThan, rfl⟩, old.1⟩

/-- A row of a known owner was already this owner's before the step. -/
theorem owned_origin (taken : s.step a = some s') (known : s.batches owner = some batch)
    (member : row' ∈ s'.table) (owned : row'.claimOwner = some owner) : row' ∈ s.table := by
  obtain ⟨row, inside, moved⟩ | ⟨record, startedAt, _, rfl, _⟩ :=
    row_origin apart taken member
  · cases moved with
    | kept => exact inside
    | leased o relay plan reply ms _ fresh =>
      obtain rfl := Option.some.inj owned
      rw [known] at fresh
      contradiction
    | settled o reply at_ _ _ _ _ settles =>
      rw [settles.claimOwner] at owned
      contradiction
  · cases owned

theorem apart_step (taken : s.step a = some s') : s'.table.Pairwise OutboxRow.Apart := by
  have shape := step_table taken
  generalize s'.table = after at shape
  cases shape with
  | same => exact apart
  | inserted record startedAt valid clear =>
    refine List.pairwise_append.mpr ⟨apart, List.pairwise_singleton _ _, ?_⟩
    intro row inside new single
    rw [List.mem_singleton.mp single]
    exact clear row inside
  | claimed fresh positive spec => exact apart_of_staged apart spec.staged
  | called known effective called => exact apart_of_staged apart (call_staged called)
  | purged olderThan cutoff => exact apart.sublist (deleteWhere_sublist _ _)

end Apart

section Tracked

variable (tracked : Tracked s)
include tracked

theorem Tracked.unique : (s.table.map (·.id)).Nodup := unique_of_apart tracked.apart

/-- Rows that agree on a unique column are the same row. -/
theorem Tracked.same_row {other : OutboxRow} (inside : row ∈ s.table)
    (inside' : other ∈ s.table) (clash : row.toStaged.conflicts other.toStaged = true) :
    row = other := same_of_apart tracked.apart inside inside' clash

theorem Tracked.same_id {other : OutboxRow} (inside : row ∈ s.table)
    (inside' : other ∈ s.table) (same : row.id = other.id) : row = other :=
  tracked.same_row inside inside' (by simp [Staged.conflicts, same])

theorem Tracked.same_dedup {other : OutboxRow} (inside : row ∈ s.table)
    (inside' : other ∈ s.table) (same : row.dedupId = other.dedupId) : row = other :=
  tracked.same_row inside inside' (by simp [Staged.conflicts, same])

variable [External]

theorem tracked_step (taken : s.step a = some s') : Tracked s' where
  apart := apart_step tracked.apart taken
  drawn := by
    intro row' member o owned
    cases known : s.batches o with
    | some b =>
      obtain ⟨b', known', _⟩ := step_known_batch taken known
      exact ⟨b', known'⟩
    | none =>
      obtain ⟨row, inside, moved⟩ | ⟨record, startedAt, _, rfl, _⟩ :=
        row_origin tracked.apart taken member
      · cases moved with
        | kept =>
          obtain ⟨b, some_⟩ := tracked.drawn row' inside o owned
          rw [known] at some_
          contradiction
        | leased o' relay plan reply ms called fresh =>
          obtain rfl := Option.some.inj owned
          subst called
          obtain ⟨_, ⟨e, rfl⟩ | ⟨_, _, _, _, _, ⟨_, rfl⟩ | ⟨e, _, rfl⟩⟩⟩ :=
            claim_cases taken
          all_goals exact ⟨_, if_pos rfl⟩
        | settled o' reply at_ _ _ _ _ settles =>
          rw [settles.claimOwner] at owned
          contradiction
      · cases owned
  snapshot := by
    intro o b known' record held row' member same owned
    cases known : s.batches o with
    | some before =>
      obtain ⟨_, _, moved⟩ := step_batch taken known known'
      have earlier : record ∈ before.phase.held := by
        rcases moved with ⟨_, rfl⟩ | moved
        · exact held
        · exact moved.held.subset held
      have inside := owned_origin tracked.apart taken known member owned
      exact tracked.snapshot o before known record earlier row' inside same owned
    | none =>
      obtain ⟨relay, plan, reply, _, _,
          ⟨e, ended, _⟩ | ⟨ms, _, positive, spec, phase⟩⟩ :=
        step_new_batch taken known known'
      · rw [ended] at held
        cases held
      · rw [phase, loop_held] at held
        obtain ⟨r, picked, rfl⟩ := spec.returned held
        obtain ⟨row, inside, ⟨_, rfl⟩ | ⟨chosen, rfl⟩⟩ :=
          spec.origin tracked.unique member
        · obtain ⟨b', some_⟩ := tracked.drawn _ inside o owned
          rw [known] at some_
          contradiction
        · rw [tracked.same_id inside (spec.due r picked).1 same]
          rfl

end Tracked

theorem tracked_of_reaches [External] {ok : System → Action → Prop} (tracked : Tracked s)
    (reached : Runs.Reaches System.step ok s s') : Tracked s' :=
  reached.invariant Tracked tracked (fun _ _ _ before _ taken => tracked_step before taken)

end FiduciaMessaging
