import Mathlib.Data.List.Nodup

/-! Statements over a table held as a list of rows: a conditional update, a
conditional delete and an insert that yields to a conflicting row. -/
namespace RowSet

variable {R K : Type}

/-- `UPDATE .. SET f WHERE p`. -/
def updateWhere (p : R → Bool) (f : R → R) (rows : List R) : List R :=
  rows.map (fun r => if p r then f r else r)

/-- How many rows a condition matches. -/
def affected (p : R → Bool) (rows : List R) : Nat := rows.countP p

/-- `DELETE WHERE p`. -/
def deleteWhere (p : R → Bool) (rows : List R) : List R := rows.filter (fun r => !p r)

/-- `INSERT .. ON CONFLICT DO NOTHING`. -/
def insertUnless (conflicts : R → Bool) (row : R) (rows : List R) : List R :=
  if rows.any conflicts then rows else rows ++ [row]

theorem mem_updateWhere {p : R → Bool} {f : R → R} {rows : List R} {r' : R} :
    r' ∈ updateWhere p f rows ↔ ∃ r ∈ rows, (if p r then f r else r) = r' := by
  simp only [updateWhere, List.mem_map]

theorem updateWhere_self {p : R → Bool} {f : R → R} {rows : List R}
    (unmatched : ∀ r ∈ rows, p r = false) : updateWhere p f rows = rows := by
  unfold updateWhere
  refine (List.map_congr_left ?_).trans (List.map_id rows)
  intro r member
  simp [unmatched r member]

/-- Columns an update does not set are the same list before and after. -/
theorem map_updateWhere {p : R → Bool} {f : R → R} (column : R → K) {rows : List R}
    (kept : ∀ r ∈ rows, p r = true → column (f r) = column r) :
    (updateWhere p f rows).map column = rows.map column := by
  simp only [updateWhere, List.map_map]
  apply List.map_congr_left
  intro r member
  simp only [Function.comp_apply]
  split
  · rename_i matched
    exact kept r member matched
  · rfl

theorem mem_updateWhere_of_match {p : R → Bool} {f : R → R} {rows : List R} {r : R}
    (inside : r ∈ rows) (matched : p r = true) : f r ∈ updateWhere p f rows :=
  mem_updateWhere.mpr ⟨r, inside, if_pos matched⟩

theorem mem_updateWhere_of_miss {p : R → Bool} {f : R → R} {rows : List R} {r : R}
    (inside : r ∈ rows) (missed : p r = false) : r ∈ updateWhere p f rows :=
  mem_updateWhere.mpr ⟨r, inside, if_neg (Bool.eq_false_iff.mp missed)⟩

/-- A condition that implies one key of a table with distinct keys matches one row. -/
theorem affected_eq_one {p : R → Bool} (key : R → K) {rows : List R} {r : R}
    (distinct : (rows.map key).Nodup) (inside : r ∈ rows) (matched : p r = true)
    (only : ∀ r' ∈ rows, p r' = true → key r' = key r) : affected p rows = 1 := by
  unfold affected
  induction rows with
  | nil => cases inside
  | cons x rest ih =>
    have apart := List.nodup_cons.mp distinct
    have narrowed : ∀ r' ∈ rest, p r' = true → key r' = key r :=
      fun r' later => only r' (List.mem_cons_of_mem _ later)
    rcases List.mem_cons.mp inside with rfl | later
    · have none_ : rest.countP p = 0 := by
        apply List.countP_eq_zero.mpr
        intro r' later also
        exact apart.1 (List.mem_map.mpr ⟨r', later, narrowed r' later also⟩)
      rw [List.countP_cons_of_pos matched, none_]
    · have miss : ¬ p x = true := by
        intro also
        exact apart.1 (List.mem_map.mpr ⟨r, later, (only x List.mem_cons_self also).symm⟩)
      rw [List.countP_cons_of_neg miss]
      exact ih apart.2 later narrowed

/-- Looking a key up finds the row that has it. -/
theorem find_key [BEq K] [LawfulBEq K] (key : R → K) {rows : List R} {r : R} {k : K}
    (distinct : (rows.map key).Nodup) (inside : r ∈ rows) (same : key r = k) :
    rows.find? (fun r' => key r' == k) = some r := by
  cases found : rows.find? (fun r' => key r' == k) with
  | none => exact absurd (beq_iff_eq.mpr same) (List.find?_eq_none.mp found r inside)
  | some r' =>
    have here := List.find?_some found
    have agree : key r' = key r := (eq_of_beq here).trans same.symm
    rw [List.inj_on_of_nodup_map distinct (List.mem_of_find?_eq_some found) inside agree]

theorem find_key_none [BEq K] [LawfulBEq K] (key : R → K) {rows : List R} {k : K}
    (absent : ∀ r ∈ rows, key r ≠ k) : rows.find? (fun r => key r == k) = none :=
  List.find?_eq_none.mpr (fun r inside same => absent r inside (eq_of_beq same))

theorem mem_deleteWhere {p : R → Bool} {rows : List R} {r : R} :
    r ∈ deleteWhere p rows ↔ r ∈ rows ∧ p r = false := by
  simp [deleteWhere]

theorem deleteWhere_sublist (p : R → Bool) (rows : List R) :
    (deleteWhere p rows).Sublist rows := List.filter_sublist

end RowSet
