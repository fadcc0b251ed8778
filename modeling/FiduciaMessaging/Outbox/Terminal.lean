import FiduciaMessaging.Outbox.Operations

/-! Published and parked rows under arbitrary callers. The marks test the owner and not
the status, so finality rests on the lease columns of every reachable row. -/
namespace FiduciaMessaging

open Runs

section Terminal

variable [External] {s t : Store} {op : Operation} {row : OutboxRow}

/-- A statement other than the purge of published rows leaves a terminal row as it is. -/
theorem Store.Sound.keeps_terminal (sound : s.Sound) (taken : s.step op = some t)
    (inside : row ∈ s.table) (terminal : row.status ≠ .pending)
    (spared : op.purges = true → row.status ≠ .published) : row ∈ t.table := by
  cases storeStep_of_step (unique_of_apart sound.apart) taken with
  | same => exact inside
  | inserted => exact List.mem_append_left _ inside
  | mapped _ g keeps moves =>
    have same := (sound.rows row inside).final terminal (moves row inside)
    exact List.mem_map.mpr ⟨row, inside, same⟩
  | purged olderThan cutoff =>
    apply RowSet.mem_deleteWhere.mpr
    refine ⟨inside, ?_⟩
    cases old : row.purgeable cutoff with
    | false => rfl
    | true =>
      simp only [OutboxRow.purgeable, Bool.and_eq_true, beq_iff_eq] at old
      exact absurd old.1 (spared rfl)
  | ticked => exact inside

omit [External] in
/-- A claim returns pending rows only. -/
theorem Store.Sound.claims_pending (sound : s.Sound) (inside : row ∈ s.table)
    (terminal : row.status ≠ .pending) {now : Timestamp} {owner : Uuid} {claimTtl : Duration}
    {limit : Int} {plan : Plan} {after : List OutboxRow} {records : List OutboxRecord}
    (claimed : claimPendingOutbox s.table now owner claimTtl limit plan = .ok (after, records)) :
    ∀ record ∈ records, record.id ≠ row.id := by
  intro record returned same
  obtain ⟨ms, _, spec⟩ := claimPendingOutbox_spec claimed
  obtain ⟨picked, chosen, rfl⟩ := spec.returned returned
  have due := spec.due picked chosen
  have clash : picked.toStaged.conflicts row.toStaged = true := by
    simp [Staged.conflicts, show picked.id = row.id from same]
  obtain rfl := same_of_apart sound.apart due.1 inside clash
  exact terminal (claimable_iff.mp due.2.1).1

/-- Whatever any workers issue, the lease columns of every row go together and a row that is
published or parked is never changed or returned by a claim again, until a purge deletes it. -/
theorem terminal_rows_final {now : Timestamp}
    (reached : Reaches Store.step (fun _ op => op.Genuine) (.initial now) s) :
    (∀ row ∈ s.table, row.Consistent) ∧
    ∀ row ∈ s.table, row.status ≠ .pending → ∀ t,
      Reaches Store.step (fun _ op => op.Genuine ∧
        (op.purges = true → row.status ≠ .published))
        s t →
      row ∈ t.table ∧ (∀ row' ∈ t.table, row'.id = row.id → row' = row) ∧
      ∀ clock owner claimTtl limit plan after records,
        claimPendingOutbox t.table clock owner claimTtl limit plan = .ok (after, records) →
        ∀ record ∈ records, record.id ≠ row.id := by
  have sound := sound_of_reaches (fun _ _ genuine => genuine) (sound_initial now) reached
  refine ⟨sound.rows, ?_⟩
  intro row inside terminal t later
  have kept : t.Sound ∧ row ∈ t.table := by
    apply later.invariant (fun x => x.Sound ∧ row ∈ x.table) ⟨sound, inside⟩
    intro x op y before allowed taken
    have stays := before.1.keeps_terminal taken before.2 terminal allowed.2
    exact ⟨before.1.step allowed.1 taken, stays⟩
  refine ⟨kept.2, ?_, ?_⟩
  · intro row' inside' same
    apply same_of_apart kept.1.apart inside' kept.2
    simp [Staged.conflicts, same]
  · intro clock owner claimTtl limit plan after records claimed
    exact kept.1.claims_pending kept.2 terminal claimed

end Terminal

section Sample

attribute [local instance] Sample.external

open Sample

/- One row is published and one parked. -/
def settlingRun : List Operation :=
  [.enqueue order1 0, .enqueue order2 0, .tick 1, .claim 7 defaultClaimTtl 10 plan,
    .markPublished 1 7 5, .markFailed 2 7 "malformed"]

/- A stale worker then retries both marks, and another one claims. -/
def staleRun : List Operation :=
  [.tick 400000000, .markFailed 1 7 "late", .markPublished 2 7 9, .reschedule 1 8 "late",
    .release 7, .claim 8 defaultClaimTtl 10 plan]

theorem settlingRun_genuine : ∀ op ∈ settlingRun, op.Genuine := by
  intro op member
  simp only [settlingRun, List.mem_cons, List.not_mem_nil, or_false] at member
  rcases member with rfl | rfl | rfl | rfl | rfl | rfl
  all_goals first | exact trivial | exact .pending _ _ _ _ _

theorem staleRun_spares (status : OutboxStatus) : ∀ op ∈ staleRun,
    op.Genuine ∧ (op.purges = true → status ≠ .published) := by
  intro op member
  simp only [staleRun, List.mem_cons, List.not_mem_nil, or_false] at member
  rcases member with rfl | rfl | rfl | rfl | rfl | rfl
  all_goals exact ⟨trivial, fun purges => Bool.noConfusion purges⟩

theorem terminal_rows_final_settled : ∃ s t, run Store.step (.initial 0) settlingRun = some s ∧
    run Store.step s staleRun = some t ∧
    s.table.map (fun row => (row.status, row.lastError)) =
      [(.published, none), (.failed, some "malformed")] ∧
    ∀ row ∈ s.table, row.status ≠ .pending → row.Consistent ∧ row ∈ t.table ∧
      ∀ clock after records,
        claimPendingOutbox t.table clock 9 defaultClaimTtl 10 plan = .ok (after, records) →
        ∀ record ∈ records, record.id ≠ row.id := by
  have ends : (run Store.step (.initial 0) settlingRun).bind (fun s =>
      (run Store.step s staleRun).map (fun _ =>
        s.table.map (fun row => (row.status, row.lastError)))) =
      some [(.published, none), (.failed, some "malformed")] := by decide +kernel
  obtain ⟨s, taken, ends⟩ := Option.bind_eq_some_iff.mp ends
  obtain ⟨t, later, rows⟩ := Option.map_eq_some_iff.mp ends
  have final := terminal_rows_final (reaches_of_run _ _ taken (fun _ => settlingRun_genuine))
  refine ⟨s, t, taken, later, rows, ?_⟩
  intro row inside terminal
  obtain ⟨stays, _, unclaimed⟩ := final.2 row inside terminal t
    (reaches_of_run _ _ later (fun _ => staleRun_spares row.status))
  exact ⟨final.1 row inside, stays, fun clock after records claimed =>
    unclaimed clock 9 defaultClaimTtl 10 plan after records claimed⟩

end Sample

end FiduciaMessaging
