import Mathlib.Data.List.Nodup

/-! A log in which the first entry of a key wins: an entry whose key is known is dropped.
Writing the beginning of a sequence again, any number of times, changes nothing. -/
namespace FirstWrite

variable {M K : Type} [DecidableEq K] {key : M → K}

def write (key : M → K) (log : List M) (m : M) : List M :=
  if key m ∈ log.map key then log else log ++ [m]

def writeAll (key : M → K) (log ms : List M) : List M := ms.foldl (write key) log

variable {log ms : List M} {m : M} {k : K}

theorem writeAll_append (key : M → K) (log ms later : List M) :
    writeAll key log (ms ++ later) = writeAll key (writeAll key log ms) later := List.foldl_append

theorem write_keys : k ∈ (write key log m).map key ↔ k ∈ log.map key ∨ k = key m := by
  unfold write
  split
  · rename_i known
    constructor
    · exact .inl
    · rintro (old | rfl)
      · exact old
      · exact known
  · rw [List.map_append, List.mem_append, List.map_singleton, List.mem_singleton]

theorem writeAll_keys : k ∈ (writeAll key log ms).map key ↔ k ∈ log.map key ∨
    k ∈ ms.map key := by
  induction ms generalizing log with
  | nil => simp [writeAll]
  | cons m ms ih =>
    have rest : k ∈ (writeAll key (write key log m) ms).map key ↔ _ := ih
    rw [writeAll, List.foldl_cons, ← writeAll, rest, write_keys, List.map_cons,
      List.mem_cons, or_assoc]

theorem write_nodup (distinct : (log.map key).Nodup) : ((write key log m).map key).Nodup := by
  unfold write
  split
  · exact distinct
  · rename_i fresh
    rw [List.map_append, List.map_singleton]
    exact List.nodup_append'.mpr
      ⟨distinct, List.nodup_singleton _, List.disjoint_singleton.mpr fresh⟩

theorem writeAll_nodup (distinct : (log.map key).Nodup) :
    ((writeAll key log ms).map key).Nodup := by
  induction ms generalizing log with
  | nil => exact distinct
  | cons m ms ih => exact ih (write_nodup distinct)

/-- Entries whose keys are all known change nothing. -/
theorem writeAll_known (known : ∀ m ∈ ms, key m ∈ log.map key) :
    writeAll key log ms = log := by
  induction ms with
  | nil => rfl
  | cons m ms ih =>
    rw [writeAll, List.foldl_cons, write, if_pos (known m List.mem_cons_self)]
    exact ih (fun m later => known m (List.mem_cons_of_mem _ later))

/-- What was cut short may be written again from the start. -/
theorem writeAll_restart (key : M → K) (log ms rest : List M) :
    writeAll key (writeAll key log ms) (ms ++ rest) = writeAll key log (ms ++ rest) := by
  have again : writeAll key (writeAll key log ms) ms = writeAll key log ms := by
    apply writeAll_known
    intro m inside
    exact writeAll_keys.mpr (.inr (List.mem_map_of_mem inside))
  rw [writeAll_append, writeAll_append, again]

theorem writeAll_replays {replays : List (List M)}
    (begins : ∀ replay ∈ replays, replay <+: ms) :
    writeAll key (replays.foldl (writeAll key) log) ms = writeAll key log ms := by
  induction replays generalizing log with
  | nil => rfl
  | cons replay replays ih =>
    obtain ⟨rest, whole⟩ := begins replay List.mem_cons_self
    rw [List.foldl_cons, ih (fun r later => begins r (List.mem_cons_of_mem _ later)), ← whole]
    exact writeAll_restart key log replay rest

/-- An entry that is not from the old log is the first of its key among those written. -/
theorem writeAll_first (inside : m ∈ writeAll key log ms) : m ∈ log ∨
    (key m ∉ log.map key ∧ ms.find? (fun other => key other == key m) = some m) := by
  induction ms generalizing log with
  | nil => exact .inl inside
  | cons first ms ih =>
    have written : m ∈ writeAll key (write key log first) ms := inside
    rcases ih written with old | ⟨fresh, found⟩
    · unfold write at old
      split at old
      · exact .inl old
      · rename_i unknown
        rcases List.mem_append.mp old with before | new
        · exact .inl before
        · rw [List.mem_singleton.mp new]
          exact .inr ⟨unknown, List.find?_cons_of_pos (beq_self_eq_true _)⟩
    · obtain ⟨unknown, other⟩ := not_or.mp (mt write_keys.mpr fresh)
      refine .inr ⟨unknown, ?_⟩
      rw [List.find?_cons_of_neg (by simpa using Ne.symm other)]
      exact found

end FirstWrite
