import FiduciaMessaging.Outbox.Operations
import FiduciaMessaging.Outbox.Dedup

/-! Which enqueues are dropped. `ON CONFLICT DO NOTHING` names no target, so it yields to
a row with the record's id as it does to a row with the record's business key. -/
namespace FiduciaMessaging

open RowSet Runs

/- One namespace for each tenant, and one for no tenant. -/
def Staged.sameKey (a b : Staged) : Bool := a.sameTenantKey b || a.sameGlobalKey b

/- What an accepted enqueue should do: drop the record exactly if its business key is
there, add it as a pending row otherwise, and touch no row. -/
structure DropsOnlyRepeats (before after : List OutboxRow) (record : OutboxRecord)
    (startedAt : Timestamp) : Prop where
  one : after.countP (fun row => row.toStaged.sameKey record.toStaged) = 1
  added : (∀ row ∈ before, row.toStaged.sameKey record.toStaged = false) →
    (record.row startedAt).Rests after .pending 0 startedAt none ∧
      (record.row startedAt).toStaged = record.toStaged ∧ record.status = .pending
  kept : before <+: after
  dropped : after = before ↔ ∃ row ∈ before, row.toStaged.sameKey record.toStaged = true

theorem sameKey_conflicts {a b : Staged} (same : a.sameKey b = true) : a.conflicts b = true := by
  rw [conflicts_eq]
  simp only [Staged.sameKey] at same
  rw [same, Bool.or_true]

/-- A repeated key: the insert yields, and the one row of the key stays. -/
theorem drops_repeated {table : List OutboxRow} (apart : table.Pairwise OutboxRow.Apart)
    {row : OutboxRow} (inside : row ∈ table) {record : OutboxRecord}
    (same : row.toStaged.sameKey record.toStaged = true) (startedAt : Timestamp) :
    DropsOnlyRepeats table table record startedAt := by
  constructor
  · apply affected_eq_one (·.id) (unique_of_apart apart) inside same
    intro other inside' also
    obtain ⟨tenant, key⟩ := sameKey_iff.mp same
    obtain ⟨tenant', key'⟩ := sameKey_iff.mp also
    have twin : other.toStaged.conflicts row.toStaged = true :=
      sameKey_conflicts (sameKey_iff.mpr ⟨tenant'.trans tenant.symm, key'.trans key.symm⟩)
    exact congrArg (fun r : OutboxRow => r.id) (same_of_apart apart inside' inside twin)
  · intro absent
    rw [absent row inside] at same
    contradiction
  · exact List.prefix_rfl
  · exact ⟨fun _ => ⟨row, inside, same⟩, fun _ => rfl⟩

/-- A new key under a new id: the record is added. -/
theorem adds_new {table : List OutboxRow} {record : OutboxRecord}
    (absent : ∀ row ∈ table, row.toStaged.sameKey record.toStaged = false)
    (pending : record.status = .pending) (fresh : record.attempts = 0) (startedAt : Timestamp) :
    DropsOnlyRepeats table (table ++ [record.row startedAt]) record startedAt := by
  have self : (record.row startedAt).toStaged.sameKey record.toStaged = true :=
    sameKey_iff.mpr ⟨rfl, rfl⟩
  constructor
  · rw [List.countP_append, List.countP_singleton, if_pos self]
    rw [List.countP_eq_zero.mpr (fun row inside => by simp [absent row inside])]
  · intro _
    have counted : saturateI32 record.attempts = 0 := by rw [fresh]; decide
    have stored :=
      List.mem_append_right table (List.mem_cons_self (a := record.row startedAt) (l := []))
    exact ⟨⟨stored, pending, counted, rfl, rfl, rfl, rfl⟩, rfl, pending⟩
  · exact List.prefix_append _ _
  · constructor
    · intro same
      have lengths := congrArg List.length same
      simp at lengths
    · rintro ⟨row, inside, found⟩
      rw [absent row inside] at found
      contradiction

section Keys

variable [External] {s t : Store} {op : Operation}

/- The columns of a constructor's record: the id is derived from the key. -/
def Staged.Keyed (staged : Staged) : Prop :=
  staged.dedupId = tenantScopedDedupId staged.tenantId staged.idempotencyKey

theorem OutboxRecord.Built.keyed {record : OutboxRecord} (built : record.Built) :
    record.toStaged.Keyed := by
  rw [built.pendingForTenant_form]
  rfl

theorem keyed_step (unique : (s.table.map (·.id)).Nodup)
    (keyed : ∀ row ∈ s.table, row.toStaged.Keyed) (genuine : op.Genuine)
    (taken : s.step op = some t) : ∀ row ∈ t.table, row.toStaged.Keyed := by
  intro row member
  cases storeStep_of_step unique taken with
  | same => exact keyed row member
  | inserted record startedAt =>
    rcases List.mem_append.mp member with old | new
    · exact keyed row old
    · rw [List.mem_singleton.mp new]
      exact OutboxRecord.Built.keyed genuine
  | mapped _ g _ moves =>
    obtain ⟨before, inside, rfl⟩ := List.mem_map.mp member
    rw [(moves before inside).toStaged]
    exact keyed before inside
  | purged => exact keyed row (mem_deleteWhere.mp member).1
  | ticked => exact keyed row member

theorem keyed_of_reaches {now : Timestamp}
    (reached : Reaches Store.step (fun _ op => op.Genuine) (.initial now) s) :
    ∀ row ∈ s.table, row.toStaged.Keyed := by
  apply reached.invariant_given (fun x => ∀ row ∈ x.table, row.toStaged.Keyed)
    (fun x before => sound_of_reaches (fun _ _ genuine => genuine) (sound_initial now) before)
  · intro row member
    cases member
  · intro x op y sound keyed genuine taken
    exact keyed_step (unique_of_apart sound.apart) keyed genuine taken

/- No two different preimages among those of the table and the record have one digest. -/
def CollisionFree (table : List OutboxRow) (record : OutboxRecord) : Prop :=
  Set.InjOn External.sha256 {bytes | ∃ staged : Staged,
    (staged = record.toStaged ∨ ∃ row ∈ table, staged = row.toStaged) ∧
    bytes = dedupPreimage staged.tenantId staged.idempotencyKey}

/-- Without collisions a row conflicts with the record on its id or on its business key. -/
theorem conflicts_keyed {table : List OutboxRow} {record : OutboxRecord} {row : OutboxRow}
    (free : CollisionFree table record) (built : record.Built) (inside : row ∈ table)
    (keyed : row.toStaged.Keyed) (short : Sized row.idempotencyKey)
    (short' : Sized record.idempotencyKey) :
    row.toStaged.conflicts record.toStaged = true ↔
      row.id = record.id ∨ row.toStaged.sameKey record.toStaged = true := by
  have ids : row.dedupId = record.dedupId → row.toStaged.sameKey record.toStaged = true := by
    intro same
    rw [keyed, OutboxRecord.Built.keyed built] at same
    have preimages := free ⟨row.toStaged, .inr ⟨row, inside, rfl⟩, rfl⟩
      ⟨record.toStaged, .inl rfl, rfl⟩ (digest_of_dedupId same)
    have parts := dedupPreimage_delimited.injective (a := (row.tenantId, row.idempotencyKey))
      (b := (record.tenantId, record.idempotencyKey)) short short' preimages
    exact sameKey_iff.mpr (Prod.mk.inj parts)
  rw [conflicts_eq]
  simp only [Bool.or_eq_true, beq_iff_eq, Staged.sameKey] at ids ⊢
  constructor
  · rintro ((same | same) | same)
    · exact .inl same
    · exact .inr (ids same)
    · exact .inr same
  · rintro (same | same)
    · exact .inl (.inl same)
    · exact .inr same

end Keys

section Enqueue

variable [External]

/-- An accepted enqueue drops only repeated business keys exactly if its key is already
there or its id is not. A new key under a used id is dropped, and reported as accepted. -/
theorem enqueue_drops_only_repeats {now startedAt : Timestamp} {s : System}
    {record : OutboxRecord} {after : List OutboxRow}
    (reached : Reaches System.step (fun _ a => a.Genuine) (.initial now) s) (built : record.Built)
    (accepted : insertOutboxRow s.table startedAt record = .ok after)
    (short : ∀ row ∈ s.table, Sized row.idempotencyKey) (short' : Sized record.idempotencyKey)
    (free : CollisionFree s.table record) :
    DropsOnlyRepeats s.table after record startedAt ↔
      (∃ row ∈ s.table, row.toStaged.sameKey record.toStaged = true) ∨
        ∀ row ∈ s.table, row.id ≠ record.id := by
  have runs := store_runs (fun _ _ genuine => genuine) reached
  have sound : s.store.Sound :=
    sound_of_reaches (fun _ _ genuine => genuine) (sound_initial now) runs
  have keyed : ∀ row ∈ s.table, row.toStaged.Keyed := keyed_of_reaches runs
  have clash {row : OutboxRow} (inside : row ∈ s.table) :=
    conflicts_keyed free built inside (keyed row inside) (short row inside) short'
  have present {row : OutboxRow} (inside : row ∈ s.table)
      (clashes : row.toStaged.conflicts record.toStaged = true) : after = s.table := by
    obtain ⟨_, rfl⟩ := insertOutboxRow_ok accepted
    exact if_pos (List.any_eq_true.mpr ⟨row, inside, clashes⟩)
  constructor
  · intro law
    by_contra bad
    rw [not_or] at bad
    obtain ⟨absent, used⟩ := bad
    simp only [not_forall, not_not] at used
    obtain ⟨row, inside, same⟩ := used
    -- the used id alone makes the insert yield
    exact absent (law.dropped.mp (present inside ((clash inside).mpr (.inl same))))
  · intro condition
    by_cases repeated : ∃ row ∈ s.table, row.toStaged.sameKey record.toStaged = true
    · obtain ⟨row, inside, same⟩ := repeated
      rw [present inside ((clash inside).mpr (.inr same))]
      exact drops_repeated sound.apart inside same startedAt
    · have unused := condition.resolve_left repeated
      have absent : ∀ row ∈ s.table, row.toStaged.sameKey record.toStaged = false := by
        intro row inside
        apply Bool.eq_false_iff.mpr
        intro same
        exact repeated ⟨row, inside, same⟩
      have clear : ¬ s.table.any (fun row => row.toStaged.conflicts record.toStaged) = true := by
        intro found
        obtain ⟨row, inside, clashes⟩ := List.any_eq_true.mp found
        rcases (clash inside).mp clashes with same | same
        · exact unused row inside same
        · exact repeated ⟨row, inside, same⟩
      obtain ⟨_, rfl⟩ := insertOutboxRow_ok accepted
      rw [insertUnless, if_neg clear]
      exact adds_new absent built.starts.1 built.starts.2 startedAt

end Enqueue

section Sample

attribute [local instance] Sample.external

open Sample

/- A new order under the id of the first one. -/
def reused : OutboxRecord := .pending 1 "fiducia.job.created.v1" "order-2" .null 1

def accepts (record : OutboxRecord) : Option (List OutboxRow × List OutboxRow) :=
  (run System.step (.initial 0) [.enqueue order1 0]).bind (fun s =>
    (insertOutboxRow s.table 0 record).toOption.map (fun after => (s.table, after)))

theorem accepts_spec {record : OutboxRecord} {before after : List OutboxRow}
    (accepted : accepts record = some (before, after)) : ∃ s,
    run System.step (.initial 0) [.enqueue order1 0] = some s ∧ s.table = before ∧
      insertOutboxRow s.table 0 record = .ok after := by
  obtain ⟨s, taken, found⟩ := Option.bind_eq_some_iff.mp accepted
  refine ⟨s, taken, ?_⟩
  cases inserted : insertOutboxRow s.table 0 record with
  | error e =>
    rw [inserted] at found
    cases found
  | ok rows =>
    rw [inserted] at found
    obtain ⟨rfl, rfl⟩ := Prod.mk.inj (Option.some.inj found)
    exact ⟨rfl, rfl⟩

/-- The table the second record meets: the row of the first, and no collision with it. -/
theorem accepts_order1 (record : OutboxRecord) {s : System} (tenant : record.tenantId = none)
    (key : record.idempotencyKey = "order-2")
    (taken : run System.step (.initial 0) [.enqueue order1 0] = some s) :
    (∀ row ∈ s.table, row.id = 1 ∧ row.tenantId = none ∧ row.idempotencyKey = "order-1") ∧
      CollisionFree s.table record := by
  have columns : (run System.step (.initial 0) [.enqueue order1 0]).map (fun s =>
      s.table.map (fun row => (row.id, row.tenantId, row.idempotencyKey))) =
      some [(1, none, "order-1")] := by decide +kernel
  rw [taken, Option.map_some, Option.some.injEq] at columns
  have only : ∀ row ∈ s.table, row.id = 1 ∧ row.tenantId = none ∧
      row.idempotencyKey = "order-1" := by
    intro row inside
    have listed := List.mem_map_of_mem
      (f := fun row : OutboxRow => (row.id, row.tenantId, row.idempotencyKey)) inside
    rw [columns] at listed
    obtain ⟨id, rest⟩ := Prod.mk.inj (List.mem_singleton.mp listed)
    exact ⟨id, Prod.mk.inj rest⟩
  have apart : External.sha256 (dedupPreimage none "order-1") ≠
      External.sha256 (dedupPreimage none "order-2") := by decide
  have either {bytes : List UInt8} (known : ∃ staged : Staged,
      (staged = record.toStaged ∨ ∃ row ∈ s.table, staged = row.toStaged) ∧
      bytes = dedupPreimage staged.tenantId staged.idempotencyKey) :
      bytes = dedupPreimage none "order-2" ∨ bytes = dedupPreimage none "order-1" := by
    obtain ⟨staged, rfl | ⟨row, inside, rfl⟩, rfl⟩ := known
    · rw [tenant, key]
      exact .inl rfl
    · obtain ⟨_, tenant, key⟩ := only row inside
      rw [tenant, key]
      exact .inr rfl
  refine ⟨only, ?_⟩
  intro x left y right same
  rcases either left with rfl | rfl <;> rcases either right with rfl | rfl
  · rfl
  · exact absurd same.symm apart
  · exact absurd same apart
  · rfl

theorem reached_order1 {s : System}
    (taken : run System.step (.initial 0) [.enqueue order1 0] = some s) :
    Reaches System.step (fun _ a => a.Genuine) (.initial 0) s := by
  apply reaches_of_run (fun _ (a : Action) => a.Genuine) _ taken
  intro _ a member
  rw [List.mem_singleton.mp member]
  exact .pending _ _ _ _ _

/- Every assumption of the law holds here, and the accepted record is nowhere. -/
theorem reused_id_dropped : ∃ s after, reused.Built ∧
    run System.step (.initial 0) [.enqueue order1 0] = some s ∧
    Reaches System.step (fun _ a => a.Genuine) (.initial 0) s ∧
    insertOutboxRow s.table 0 reused = .ok after ∧ CollisionFree s.table reused ∧
    (∀ row ∈ s.table, Sized row.idempotencyKey) ∧ Sized reused.idempotencyKey ∧
    ¬ DropsOnlyRepeats s.table after reused 0 := by
  have counts : (accepts reused).map (fun tables =>
      tables.2.countP (fun row => row.toStaged.sameKey reused.toStaged)) = some 0 := by
    decide +kernel
  obtain ⟨⟨before, after⟩, found, none_⟩ := Option.map_eq_some_iff.mp counts
  obtain ⟨s, taken, _, accepted⟩ := accepts_spec found
  obtain ⟨only, free⟩ := accepts_order1 reused rfl rfl taken
  refine ⟨s, after, .pending _ _ _ _ _, taken, reached_order1 taken, accepted, free,
    ?_, by decide, ?_⟩
  · intro row inside
    rw [(only row inside).2.2]
    decide
  · intro law
    have one := law.one
    rw [none_] at one
    contradiction

theorem enqueue_drops_only_repeats_new : ∃ s after,
    run System.step (.initial 0) [.enqueue order1 0] = some s ∧
    insertOutboxRow s.table 0 order2 = .ok after ∧
    DropsOnlyRepeats s.table after order2 0 := by
  have accepts_ : (accepts order2).isSome = true := by decide +kernel
  obtain ⟨⟨before, after⟩, found⟩ := Option.isSome_iff_exists.mp accepts_
  obtain ⟨s, taken, _, accepted⟩ := accepts_spec found
  obtain ⟨only, free⟩ := accepts_order1 order2 rfl rfl taken
  refine ⟨s, after, taken, accepted, ?_⟩
  apply (enqueue_drops_only_repeats (reached_order1 taken) (.pending _ _ _ _ _) accepted ?_
    (by decide) free).mpr
  · right
    intro row inside same
    rw [(only row inside).1] at same
    exact absurd same (by decide)
  · intro row inside
    rw [(only row inside).2.2]
    decide

end Sample

end FiduciaMessaging
