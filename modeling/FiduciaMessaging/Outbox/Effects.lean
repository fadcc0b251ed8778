import FiduciaMessaging.Outbox.Statements

/-! What each statement can do to the table, in the form the invariants use:
a claim leases rows that were claimable, a mark settles rows of its owner. -/
namespace FiduciaMessaging

open RowSet

variable {table after picked : List OutboxRow} {records : List OutboxRecord}
  {record : OutboxRecord} {now at_ expires : Timestamp} {id owner : Uuid} {error : String}
  {row row' : OutboxRow}

/- The four ways a mark ends the lease of a row. -/
inductive OutboxRow.Settles (row : OutboxRow) : OutboxRow → Prop where
  | published (at_ : Timestamp) : Settles row (row.published at_)
  | parked (error : String) : Settles row (row.parked error)
  | rescheduled (now : Timestamp) (error : String) :
      row.status = .pending → Settles row (row.rescheduled now error)
  | released : row.status = .pending → Settles row row.released

theorem OutboxRow.Settles.toStaged (settled : row.Settles row') : row'.toStaged = row.toStaged := by
  cases settled <;> rfl

theorem OutboxRow.Settles.claimOwner (settled : row.Settles row') : row'.claimOwner = none := by
  cases settled <;> rfl

theorem OutboxRow.Settles.claimExpiresAt (settled : row.Settles row') :
    row'.claimExpiresAt = none := by
  cases settled <;> rfl

theorem ownedAs_iff : row.ownedAs id owner = true ↔ row.id = id ∧
    row.claimOwner = some owner := by
  simp [OutboxRow.ownedAs]

theorem pendingOf_iff :
    row.pendingOf owner = true ↔ row.status = .pending ∧ row.claimOwner = some owner := by
  simp [OutboxRow.pendingOf]

theorem pendingAs_iff : row.pendingAs id owner = true ↔
    row.id = id ∧ row.claimOwner = some owner ∧ row.status = .pending := by
  simp [OutboxRow.pendingAs, ownedAs_iff, and_assoc]

theorem claimable_iff : row.claimable now = true ↔
    row.status = .pending ∧ row.availableAt ≤ now ∧ row.leaseFree now = true := by
  simp [OutboxRow.claimable, and_assoc]

theorem updateWhere_disowns {p : OutboxRow → Bool} {f : OutboxRow → OutboxRow}
    (here : OutboxRow → Prop) (covers : ∀ r ∈ table, here r →
      r.claimOwner = some owner → p r = true)
    (clears : ∀ r, (f r).claimOwner = none) (member : row' ∈ updateWhere p f table)
    (same : here row') : row'.claimOwner ≠ some owner := by
  intro owned
  obtain ⟨r, inside, rfl⟩ := mem_updateWhere.mp member
  cases matched : p r with
  | false =>
    rw [matched] at same owned
    rw [covers r inside same owned] at matched
    cases matched
  | true =>
    rw [if_pos matched, clears r] at owned
    cases owned

/- After a mark or a release the caller owns none of the rows it was about. -/

theorem markPublished_disowns (member : row' ∈ (markPublished table id owner at_).1)
    (same : row'.id = id) : row'.claimOwner ≠ some owner :=
  updateWhere_disowns (fun r => r.id = id)
    (fun _ _ here owned => ownedAs_iff.mpr ⟨here, owned⟩) (fun _ => rfl) member same

theorem markFailed_disowns (member : row' ∈ (markFailed table id owner error).1)
    (same : row'.id = id) : row'.claimOwner ≠ some owner :=
  updateWhere_disowns (fun r => r.id = id)
    (fun _ _ here owned => ownedAs_iff.mpr ⟨here, owned⟩) (fun _ => rfl) member same

theorem reschedulePublish_disowns
    (waiting : ∀ r ∈ table, r.claimOwner = some owner → r.status = .pending)
    (member : row' ∈ (reschedulePublish table now id owner error).1) (same : row'.id = id) :
    row'.claimOwner ≠ some owner :=
  updateWhere_disowns (fun r => r.id = id)
    (fun r inside here owned => pendingAs_iff.mpr ⟨here, owned, waiting r inside owned⟩)
    (fun _ => rfl) member same

theorem releaseOutboxClaims_disowns
    (waiting : ∀ r ∈ table, r.claimOwner = some owner → r.status = .pending)
    (member : row' ∈ (releaseOutboxClaims table owner).1) : row'.claimOwner ≠ some owner :=
  updateWhere_disowns (fun _ => True)
    (fun r inside _ owned => pendingOf_iff.mpr ⟨waiting r inside owned, owned⟩)
    (fun _ => rfl) member trivial

/- The claim. -/

structure ClaimedBy (owner : Uuid) (now expires : Timestamp) (table picked after : List OutboxRow)
    (records : List OutboxRecord) : Prop where
  due : ∀ r ∈ picked, r ∈ table ∧ r.claimable now = true ∧ r.attempts + 1 ≤ i32Max
  distinct : (table.map (·.id)).Nodup → (picked.map (·.id)).Nodup
  leases : after = updateWhere (fun r => (picked.map (·.id)).contains r.id)
    (fun r => r.leased owner expires) table
  returns : records.Perm (picked.map (fun r => (r.leased owner expires).intoRecord))

theorem positiveMs_ok {duration : Duration} {what : String} {ms : Int}
    (accepted : positiveMs duration what = .ok ms) :
    ms = duration.asMillis ∧ duration.asMillis ≤ i64Max := by
  unfold positiveMs at accepted
  split at accepted
  · rename_i fits
    exact ⟨(Except.ok.inj accepted).symm, fits.2⟩
  · contradiction

theorem mem_claimCandidates {limit : Int} {plan : Plan}
    (member : row ∈ claimCandidates table now limit plan) :
    row ∈ table ∧ row.claimable now = true := by
  have sorted := List.mem_of_mem_take member
  have filtered := List.mem_filter.mp ((List.mem_insertionSort plan.before).mp sorted)
  simp only [Bool.and_eq_true] at filtered
  exact ⟨filtered.1, filtered.2.1⟩

theorem claimCandidates_distinct (limit : Int) (plan : Plan) (unique : (table.map (·.id)).Nodup) :
    ((claimCandidates table now limit plan).map (·.id)).Nodup := by
  have filtered :
      ((table.filter (fun r => r.claimable now && !plan.locked r.id)).map (·.id)).Nodup :=
    unique.sublist (List.filter_sublist.map _)
  have sorted := ((List.perm_insertionSort plan.before _).map (·.id)).nodup_iff.mpr filtered
  exact sorted.sublist ((List.take_sublist _ _).map _)

/-- A claim that succeeds leased exactly its candidates and returned their new versions. -/
theorem claimPendingOutbox_spec {claimTtl : Duration} {limit : Int} {plan : Plan}
    (claimed : claimPendingOutbox table now owner claimTtl limit plan = .ok (after, records)) :
    ∃ ms, positiveMs claimTtl "outbox claim TTL" = .ok ms ∧
      ClaimedBy owner now (now + ms * millisecond) table (claimCandidates table now limit plan)
        after records := by
  simp only [claimPendingOutbox, bind, Except.bind, pure, Except.pure, throw, throwThe,
    MonadExceptOf.throw] at claimed
  split at claimed
  · contradiction
  cases millis : positiveMs claimTtl "outbox claim TTL" with
  | error e => simp [millis] at claimed
  | ok ms =>
    simp only [millis] at claimed
    split at claimed
    · contradiction
    rename_i fits
    obtain ⟨rfl, rfl⟩ := Prod.mk.inj (Except.ok.inj claimed)
    refine ⟨ms, rfl, ?_, ?_, rfl, List.perm_insertionSort _ _⟩
    · intro r member
      have inside := mem_claimCandidates member
      have below : ¬ r.attempts + 1 > i32Max := by
        intro above
        exact fits (List.any_eq_true.mpr ⟨r, member, decide_eq_true above⟩)
      exact ⟨inside.1, inside.2, Int.not_lt.mp below⟩
    · exact claimCandidates_distinct limit plan

section ClaimedBy

variable (claimed : ClaimedBy owner now expires table picked after records)
include claimed

theorem ClaimedBy.staged : after.map OutboxRow.toStaged = table.map OutboxRow.toStaged := by
  rw [claimed.leases]
  exact map_updateWhere _ (fun _ _ _ => rfl)

/-- With unique ids a row is leased exactly when it was picked. -/
theorem ClaimedBy.picked_iff (unique : (table.map (·.id)).Nodup) (member : row ∈ table) :
    (picked.map (·.id)).contains row.id = true ↔ row ∈ picked := by
  rw [List.contains_iff_mem, List.mem_map]
  constructor
  · rintro ⟨r, inside, same⟩
    exact List.inj_on_of_nodup_map unique member (claimed.due r inside).1 same.symm ▸ inside
  · intro inside
    exact ⟨row, inside, rfl⟩

theorem ClaimedBy.origin (unique : (table.map (·.id)).Nodup) (member : row' ∈ after) :
    ∃ r ∈ table, (r ∉ picked ∧ row' = r) ∨
      (r ∈ picked ∧ row' = r.leased owner expires) := by
  rw [claimed.leases] at member
  obtain ⟨r, inside, rfl⟩ := mem_updateWhere.mp member
  have matched := claimed.picked_iff unique inside
  refine ⟨r, inside, ?_⟩
  by_cases chosen : r ∈ picked
  · exact .inr ⟨chosen, if_pos (matched.mpr chosen)⟩
  · exact .inl ⟨chosen, if_neg (fun found => chosen (matched.mp found))⟩

theorem ClaimedBy.unpublished (unique : (table.map (·.id)).Nodup) (member : row' ∈ after)
    (published : row'.status = .published) : row' ∈ table := by
  obtain ⟨r, inside, ⟨_, rfl⟩ | ⟨picked, rfl⟩⟩ := claimed.origin unique member
  · exact inside
  · have due := (claimable_iff.mp (claimed.due r picked).2.1).1
    rw [OutboxRow.leased, due] at published
    contradiction

theorem ClaimedBy.image (unique : (table.map (·.id)).Nodup) (member : row ∈ table) :
    (row ∉ picked ∧ row ∈ after) ∨
    (row ∈ picked ∧ row.leased owner expires ∈ after) := by
  have matched := claimed.picked_iff unique member
  rw [claimed.leases]
  by_cases chosen : row ∈ picked
  · exact .inr ⟨chosen, mem_updateWhere.mpr ⟨row, member, if_pos (matched.mpr chosen)⟩⟩
  · refine .inl ⟨chosen, mem_updateWhere.mpr ⟨row, member, ?_⟩⟩
    exact if_neg (fun found => chosen (matched.mp found))

theorem ClaimedBy.returned (member : record ∈ records) :
    ∃ r ∈ picked, record = (r.leased owner expires).intoRecord := by
  obtain ⟨r, inside, same⟩ := List.mem_map.mp (claimed.returns.mem_iff.mp member)
  exact ⟨r, inside, same.symm⟩

theorem ClaimedBy.records_distinct (unique : (table.map (·.id)).Nodup) :
    (records.map (·.id)).Nodup := by
  have same := (claimed.returns.map (fun r : OutboxRecord => r.id)).nodup_iff
  rw [same, List.map_map]
  exact claimed.distinct unique

end ClaimedBy

end FiduciaMessaging
