import FiduciaMessaging.Foundations.RowSet

/-! A keyed table under concurrent transactions at read committed. A statement
that has to wait for another transaction has no step until that one ends. -/
namespace Transactions

open RowSet

/-- A stored row: the columns its insert fixed, the data updates change, the
transaction that inserted it and the update not committed yet, if there is one. -/
structure Version (R D Tx : Type) where
  row : R
  data : D
  writer : Tx
  committed : Bool
  pending : Option (Tx × D)

variable {R D K Tx : Type} [DecidableEq Tx] {table : List (Version R D Tx)} {v v' : Version R D Tx}
  {tx other : Tx}

def Version.fresh (tx : Tx) (row : R) (data : D) : Version R D Tx :=
  ⟨row, data, tx, false, none⟩

def Version.visible (tx : Tx) (v : Version R D Tx) : Bool := v.committed || v.writer == tx

def Version.current (tx : Tx) (v : Version R D Tx) : D :=
  match v.pending with
  | some (editor, edited) => if editor = tx then edited else v.data
  | none => v.data

def Version.locked (tx : Tx) (v : Version R D Tx) : Bool := v.pending.any (fun edit => edit.1 != tx)

def Version.matched (p : R → D → Bool) (tx : Tx) (v : Version R D Tx) : Bool :=
  v.visible tx && p v.row (v.current tx)

/-- `SELECT .. WHERE p LIMIT 1`. -/
def select (p : R → D → Bool) (tx : Tx) (table : List (Version R D Tx)) : Option R :=
  (table.find? (Version.matched p tx)).map (·.row)

/-- `INSERT .. ON CONFLICT (key) DO NOTHING` and the rows it inserted. It waits for an
open transaction that holds the key. -/
def insert [DecidableEq K] (key : R → K) (tx : Tx) (row : R) (data : D)
    (table : List (Version R D Tx)) : Option (List (Version R D Tx) × Nat) :=
  if table.any (fun v => key v.row == key row && !v.visible tx) then none
  else if table.any (fun v => key v.row == key row) then some (table, 0)
  else some (table ++ [.fresh tx row data], 1)

/-- `UPDATE .. SET f WHERE p` and the rows it matched. -/
def update (p : R → D → Bool) (f : D → D) (tx : Tx) (table : List (Version R D Tx)) :
    Option (List (Version R D Tx) × Nat) :=
  if table.any (fun v => v.matched p tx && v.locked tx) then none
  else some (updateWhere (Version.matched p tx)
      (fun v => { v with pending := some (tx, f (v.current tx)) }) table,
    affected (Version.matched p tx) table)

/-- `DELETE .. WHERE p` on its own connection: only committed rows, and none that is being
updated. -/
def delete (p : R → D → Bool) (table : List (Version R D Tx)) :
    Option (List (Version R D Tx)) :=
  if table.any (fun v => v.committed && p v.row v.data && v.pending.isSome) then none
  else some (deleteWhere (fun v => v.committed && p v.row v.data) table)

def Version.settle (tx : Tx) (v : Version R D Tx) : Version R D Tx where
  row := v.row
  data := v.current tx
  writer := v.writer
  committed := v.visible tx
  pending := if v.locked tx then v.pending else none

def commit (tx : Tx) (table : List (Version R D Tx)) : List (Version R D Tx) :=
  table.map (Version.settle tx)

def Version.discard (tx : Tx) (v : Version R D Tx) : Version R D Tx :=
  { v with pending := if v.locked tx then v.pending else none }

def rollback (tx : Tx) (table : List (Version R D Tx)) : List (Version R D Tx) :=
  (deleteWhere (fun v => v.writer == tx && !v.committed) table).map (Version.discard tx)

/- What no statement but an insert, a delete or a rollback changes. -/

theorem mem_update {p : R → D → Bool} {f : D → D} {after : List (Version R D Tx)} {rows : Nat}
    (updated : update p f tx table = some (after, rows)) (member : v' ∈ after) :
    ∃ v ∈ table, v'.row = v.row ∧ v'.writer = v.writer ∧ v'.committed = v.committed := by
  unfold update at updated
  split at updated
  · contradiction
  · obtain ⟨rfl, rfl⟩ := Prod.mk.inj (Option.some.inj updated)
    obtain ⟨v, inside, rfl⟩ := mem_updateWhere.mp member
    exact ⟨v, inside, by split <;> exact ⟨rfl, rfl, rfl⟩⟩

theorem update_keeps {p : R → D → Bool} {f : D →
    D} {after : List (Version R D Tx)} {rows : Nat}
    (updated : update p f tx table = some (after, rows)) (member : v ∈ table) :
    ∃ v' ∈ after, v'.row = v.row ∧ v'.writer = v.writer ∧ v'.committed = v.committed := by
  unfold update at updated
  split at updated
  · contradiction
  · obtain ⟨rfl, rfl⟩ := Prod.mk.inj (Option.some.inj updated)
    exact ⟨_, mem_updateWhere.mpr ⟨v, member, rfl⟩, by split <;> exact ⟨rfl, rfl, rfl⟩⟩

theorem update_rows {p : R → D → Bool} {f : D →
    D} {after : List (Version R D Tx)} {rows : Nat}
    (updated : update p f tx table = some (after, rows)) :
    after.map (·.row) = table.map (·.row) := by
  unfold update at updated
  split at updated
  · contradiction
  · obtain ⟨rfl, rfl⟩ := Prod.mk.inj (Option.some.inj updated)
    exact map_updateWhere _ (fun _ _ _ => rfl)

theorem mem_commit : v' ∈ commit tx table ↔ ∃ v ∈ table, v.settle tx = v' := List.mem_map

theorem mem_rollback : v' ∈ rollback tx table ↔
    ∃ v ∈ table, (v.writer = tx → v.committed = true) ∧ v.discard tx = v' := by
  simp only [rollback, List.mem_map, mem_deleteWhere, and_assoc]
  apply exists_congr
  intro v
  apply and_congr_right
  intro _
  apply and_congr_left
  intro _
  cases v.committed <;> simp

omit [DecidableEq Tx] in
theorem delete_spec {p : R → D → Bool} {after : List (Version R D Tx)}
    (deleted : delete p table = some after) :
    after = deleteWhere (fun v => v.committed && p v.row v.data) table := by
  unfold delete at deleted
  split at deleted
  · contradiction
  · exact (Option.some.inj deleted).symm

section Insert

variable [DecidableEq K] {key : R → K} {row : R} {data : D}
  {after : List (Version R D Tx)} {n : Nat}

/-- An insert that does not wait adds the row, or loses to one its transaction can see. -/
theorem insert_cases (inserted : insert key tx row data table = some (after, n)) :
    (n = 1 ∧ after = table ++ [.fresh tx row data] ∧
      ∀ v ∈ table, key v.row ≠ key row) ∨
    (n = 0 ∧ after = table ∧ ∃ v ∈ table, key v.row = key row ∧ v.visible tx = true) := by
  unfold insert at inserted
  split at inserted
  · contradiction
  · rename_i ready
    split at inserted
    · rename_i found
      obtain ⟨rfl, rfl⟩ := Prod.mk.inj (Option.some.inj inserted)
      obtain ⟨v, member, same⟩ := List.any_eq_true.mp found
      refine .inr ⟨rfl, rfl, v, member, eq_of_beq same, ?_⟩
      cases seen : v.visible tx with
      | true => rfl
      | false => exact absurd (List.any_eq_true.mpr ⟨v, member, by simp [same, seen]⟩) ready
    · rename_i free
      obtain ⟨rfl, rfl⟩ := Prod.mk.inj (Option.some.inj inserted)
      refine .inl ⟨rfl, rfl, ?_⟩
      intro v member same
      exact free (List.any_eq_true.mpr ⟨v, member, by simp [same]⟩)

end Insert

/- Keys stay unique, whatever the transactions do. -/

section Unique

variable {key : R → K}

def Unique (key : R → K) (table : List (Version R D Tx)) : Prop :=
  (table.map (fun v => key v.row)).Nodup

omit [DecidableEq Tx] in
theorem Unique.same (unique : Unique key table) (inside : v ∈ table) (inside' : v' ∈ table)
    (agree : key v.row = key v'.row) : v = v' :=
  List.inj_on_of_nodup_map unique inside inside' agree

omit [DecidableEq Tx] in
theorem Unique.append {row : R} {data : D} (unique : Unique key table)
    (fresh : ∀ v ∈ table, key v.row ≠ key row) :
    Unique key (table ++ [Version.fresh tx row data]) := by
  simp only [Unique, List.map_append, List.map_cons, List.map_nil]
  refine List.nodup_append.mpr ⟨unique, List.nodup_singleton _, ?_⟩
  intro k old k' new same
  obtain ⟨v, member, rfl⟩ := List.mem_map.mp old
  exact fresh v member (same.trans (List.mem_singleton.mp new))

theorem Unique.update {p : R → D → Bool} {f : D →
    D} {after : List (Version R D Tx)} {rows : Nat}
    (unique : Unique key table) (updated : update p f tx table = some (after, rows)) :
    Unique key after := by
  have same := congrArg (List.map key) (update_rows updated)
  simp only [List.map_map] at same
  exact (congrArg List.Nodup same).mpr unique

theorem Unique.commit (unique : Unique key table) : Unique key (commit tx table) := by
  simp only [Unique, Transactions.commit, List.map_map]
  exact unique

theorem Unique.rollback (unique : Unique key table) : Unique key (rollback tx table) := by
  simp only [Unique, Transactions.rollback, List.map_map]
  exact unique.sublist ((deleteWhere_sublist _ _).map _)

omit [DecidableEq Tx] in
theorem Unique.deleteWhere (gone : Version R D Tx → Bool) (unique : Unique key table) :
    Unique key (deleteWhere gone table) :=
  unique.sublist ((deleteWhere_sublist _ _).map _)

end Unique

end Transactions
