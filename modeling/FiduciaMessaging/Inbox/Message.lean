import FiduciaMessaging.External
import FiduciaMessaging.Foundations.Noninterference
import FiduciaMessaging.Foundations.RowSet

/-! The message-id-keyed inbox. One insert races the primary key and the two
partial indexes on the business key, and reports only whether it won. -/
namespace FiduciaMessaging

open RowSet Noninterference

/- A row of `message_inbox`. -/
structure InboxRow where
  messageId : Uuid
  tenantId : Option Uuid
  idempotencyKey : String
  receivedAt : Timestamp
  processedAt : Option Timestamp

/- `PRIMARY KEY (message_id)` and the business key within one namespace. -/
def InboxRow.conflicts (a b : InboxRow) : Bool :=
  a.messageId == b.messageId || (a.tenantId == b.tenantId && a.idempotencyKey == b.idempotencyKey)

def inboxTryInsert (table : List InboxRow) (tenantId : Option Uuid) (messageId : Uuid)
    (idempotencyKey : String) (receivedAt : Timestamp) : List InboxRow × Bool :=
  let row : InboxRow := ⟨messageId, tenantId, idempotencyKey, receivedAt, none⟩
  let rowsAffected : Nat := if table.any (fun r => r.conflicts row) then 0 else 1
  (insertUnless (fun r => r.conflicts row) row table, rowsAffected == 1)

structure InboxCall where
  tenantId : Option Uuid
  messageId : Uuid
  idempotencyKey : String
  receivedAt : Timestamp

def InboxCall.serve (table : List InboxRow) (call : InboxCall) : List InboxRow × Bool :=
  inboxTryInsert table call.tenantId call.messageId call.idempotencyKey call.receivedAt

def InboxCall.row (call : InboxCall) : InboxRow :=
  ⟨call.messageId, call.tenantId, call.idempotencyKey, call.receivedAt, none⟩

/- A tenant, or the global namespace. -/
abbrev Namespace := Option Uuid

variable {T : Namespace} {table : List InboxRow} {call : InboxCall}

def InboxCall.isOf (T : Namespace) (call : InboxCall) : Bool := call.tenantId == T

def InboxRow.isOf (T : Namespace) (row : InboxRow) : Bool := row.tenantId == T

/- The results of the namespace's calls do not depend on the calls of the others. -/
def NonInterfering (T : Namespace) (calls : List InboxCall) : Prop :=
  answers InboxCall.serve (InboxCall.isOf T) [] calls =
    answers InboxCall.serve (InboxCall.isOf T) [] (calls.filter (InboxCall.isOf T))

/- No other namespace holds the call's message id, unless the namespace's own rows decide the
call. -/
def MessageIdFree (T : Namespace) (table : List InboxRow) (call : InboxCall) : Prop :=
  (∃ row ∈ table, row.tenantId = T ∧
    (row.messageId = call.messageId ∨ row.idempotencyKey = call.idempotencyKey)) ∨
  ∀ row ∈ table, row.messageId = call.messageId → row.tenantId = T

theorem serve_result : (call.serve table).2 = !table.any (fun r => r.conflicts call.row) := by
  change ((if table.any (fun r => r.conflicts call.row) then 0 else 1 : Nat) == 1) = _
  cases table.any (fun r => r.conflicts call.row) <;> rfl

theorem serve_table :
    (call.serve table).1 = insertUnless (fun r => r.conflicts call.row) call.row table := rfl

theorem conflicts_iff {row : InboxRow} : row.conflicts call.row = true ↔
    row.messageId = call.messageId ∨
      (row.tenantId = call.tenantId ∧ row.idempotencyKey = call.idempotencyKey) := by
  simp [InboxRow.conflicts, InboxCall.row]

/-- For a clear call the namespace's own rows are all that counts. -/
theorem free_conflicts (mine : call.tenantId = T) (free : MessageIdFree T table call) :
    table.any (fun r => r.conflicts call.row) =
      (table.filter (InboxRow.isOf T)).any (fun r => r.conflicts call.row) := by
  rw [Bool.eq_iff_iff, List.any_eq_true, List.any_eq_true]
  constructor
  · rintro ⟨row, inside, clash⟩
    rcases free with ⟨own, inside', tenant, same⟩ | unique
    · refine ⟨own, List.mem_filter.mpr ⟨inside', by simp [InboxRow.isOf, tenant]⟩, ?_⟩
      exact conflicts_iff.mpr (same.imp_right (fun key => ⟨tenant.trans mine.symm, key⟩))
    · refine ⟨row, List.mem_filter.mpr ⟨inside, ?_⟩, clash⟩
      rcases conflicts_iff.mp clash with id | ⟨tenant, _⟩
      · simp [InboxRow.isOf, unique row inside id]
      · simp [InboxRow.isOf, tenant, mine]
  · rintro ⟨row, inside, clash⟩
    exact ⟨row, (List.mem_filter.mp inside).1, clash⟩

theorem insertUnless_filter {rows : List InboxRow} (own : rows = table.filter (InboxRow.isOf T))
    (mine : call.tenantId = T) (same : table.any (fun r => r.conflicts call.row) =
      rows.any (fun r => r.conflicts call.row)) :
    insertUnless (fun r => r.conflicts call.row) call.row rows =
      (insertUnless (fun r => r.conflicts call.row) call.row table).filter (InboxRow.isOf T) := by
  unfold insertUnless
  rw [same]
  split
  · exact own
  · have kept : InboxRow.isOf T call.row = true := by simp [InboxRow.isOf, InboxCall.row, mine]
    rw [List.filter_append, List.filter_cons_of_pos kept, List.filter_nil, own]

theorem serve_unwinding (T : Namespace) : Unwinding InboxCall.serve (InboxCall.isOf T)
    (MessageIdFree T) (fun table rows => rows = table.filter (InboxRow.isOf T)) where
  foreign := by
    intro table rows call own foreign
    rw [serve_table, insertUnless]
    split
    · exact own
    · have other : ¬ InboxRow.isOf T call.row = true := by
        simpa [InboxRow.isOf, InboxCall.isOf, InboxCall.row] using foreign
      rw [List.filter_append, List.filter_cons_of_neg other, List.filter_nil, List.append_nil]
      exact own
  answer := by
    intro table rows call own mine free
    rw [serve_result, serve_result, free_conflicts (eq_of_beq mine) free, own]
  same := by
    intro table rows call own mine free
    have decided := free_conflicts (eq_of_beq mine) free
    exact insertUnless_filter own (eq_of_beq mine) (own ▸ decided)
  seen := by
    intro table rows call own mine held
    simp only [MessageIdFree, not_or, not_exists, not_and, not_forall] at held
    obtain ⟨absent, foreign, inside, id, _⟩ := held
    have lost : table.any (fun r => r.conflicts call.row) = true :=
      List.any_eq_true.mpr ⟨foreign, inside, conflicts_iff.mpr (.inl id)⟩
    have won : rows.any (fun r => r.conflicts call.row) = false := by
      rw [own, List.any_eq_false]
      intro row member clash
      obtain ⟨inside, tenant⟩ := List.mem_filter.mp member
      have differs := absent row inside (eq_of_beq tenant)
      rcases conflicts_iff.mp clash with id | ⟨_, key⟩
      · exact differs.1 id
      · exact differs.2 key
    rw [serve_result, serve_result, lost, won]
    decide

/-- A namespace's results are its own exactly when no call of it meets a message id that
another namespace took, unless its own rows decide that call anyway. -/
theorem noninterfering_iff (T : Namespace) (calls : List InboxCall) : NonInterfering T calls ↔
    Unaffected InboxCall.serve (InboxCall.isOf T) (MessageIdFree T) [] calls :=
  (serve_unwinding T).answers_filter_iff calls rfl

/- Tenant 2 takes message id 42 first; tenant 1's own first sighting of it is refused. -/
theorem message_id_interferes : ¬ NonInterfering (some 1)
    [⟨some 2, 42, "invoice/2", 0⟩, ⟨some 1, 42, "invoice/1", 0⟩] := by
  unfold NonInterfering
  decide +kernel

end FiduciaMessaging
