import FiduciaMessaging.Outbox.Invariants
import FiduciaMessaging.Foundations.Lease

/-! The lease columns of a row as a lease cell: the claim is its only taker, and
only the marks of the leasing owner end it. -/
namespace FiduciaMessaging

open Runs

def OutboxRow.lease (row : OutboxRow) : Lease.Cell Uuid Timestamp :=
  match row.claimOwner, row.claimExpiresAt with
  | some owner, some expires => some (owner, expires)
  | _, _ => none

/- Owner and expiry are set and cleared together. -/
def OutboxRow.Paired (row : OutboxRow) : Prop := row.claimOwner.isSome = row.claimExpiresAt.isSome

variable {s s' : System} {a : Action} {row row' : OutboxRow} {owner other : Uuid} {batch : Batch}
  {now : Timestamp}

theorem lease_eq_some {e : Timestamp} :
    row.lease = some (owner, e) ↔ row.claimOwner = some owner ∧
      row.claimExpiresAt = some e := by
  unfold OutboxRow.lease
  split
  · rename_i o f claimed expires
    rw [claimed, expires, Option.some_inj, Prod.mk.injEq, Option.some_inj, Option.some_inj]
  · rename_i none_
    constructor
    · intro impossible
      cases impossible
    · rintro ⟨claimed, expires⟩
      exact absurd expires (none_ owner e claimed)

theorem leaseFree_iff (paired : row.Paired) :
    row.leaseFree now = true ↔ Lease.Free now row.lease := by
  constructor
  · intro free o e leased
    rw [OutboxRow.leaseFree, (lease_eq_some.mp leased).2] at free
    exact of_decide_eq_true free
  · intro free
    unfold OutboxRow.leaseFree
    cases expires : row.claimExpiresAt with
    | none => rfl
    | some e =>
      have owned : row.claimOwner.isSome = true := by
        rw [paired, expires]
        rfl
      obtain ⟨o, claimed⟩ := Option.isSome_iff_exists.mp owned
      exact decide_eq_true (free o e (lease_eq_some.mpr ⟨claimed, expires⟩))

theorem claimStillHeld_iff (tracked : Tracked s) (inside : row ∈ s.table) :
    claimStillHeld s.table now row.id owner = true ↔ Lease.Held now owner row.lease := by
  unfold claimStillHeld
  constructor
  · intro found
    obtain ⟨r, member, passed⟩ := List.any_eq_true.mp found
    obtain ⟨owned, live⟩ := Bool.and_eq_true_iff.mp passed
    obtain ⟨same, claimed⟩ := ownedAs_iff.mp owned
    obtain rfl := tracked.same_id member inside same
    cases expires : r.claimExpiresAt with
    | none => simp [expires] at live
    | some e =>
      rw [expires] at live
      exact ⟨e, lease_eq_some.mpr ⟨claimed, expires⟩, of_decide_eq_true live⟩
  · rintro ⟨e, leased, before⟩
    obtain ⟨claimed, expires⟩ := lease_eq_some.mp leased
    refine List.any_eq_true.mpr ⟨row, inside, ?_⟩
    rw [ownedAs_iff.mpr ⟨rfl, claimed⟩, expires]
    exact decide_eq_true before

theorem RowMove.paired [External] (moved : RowMove s a row row') (paired : row.Paired) :
    row'.Paired := by
  cases moved with
  | kept => exact paired
  | leased => rfl
  | settled o reply at_ _ _ _ _ settles =>
    rw [OutboxRow.Paired, settles.claimOwner, settles.claimExpiresAt]
    rfl

theorem OutboxRow.Settles.lease (settles : row.Settles row') : row'.lease = none := by
  rw [OutboxRow.lease, settles.claimOwner]

/-- The lease columns of a row move as a lease cell does. -/
theorem RowMove.lease [External] (moved : RowMove s a row row') (paired : row.Paired) :
    Lease.Move s.now row.lease row'.lease := by
  cases moved with
  | kept => exact .kept _
  | leased o relay plan reply ms _ _ _ due =>
    exact .taken o _ ((leaseFree_iff paired).mp (claimable_iff.mp due).2.2)
  | settled o reply at_ _ _ _ owned settles =>
    rw [settles.lease]
    have held : row.claimExpiresAt.isSome = true := by
      rw [← paired, owned]
      rfl
    obtain ⟨e, expires⟩ := Option.isSome_iff_exists.mp held
    rw [lease_eq_some.mpr ⟨owned, expires⟩]
    exact .ended o e

def PairedTable (s : System) : Prop := ∀ row ∈ s.table, row.Paired

theorem paired_initial (now : Timestamp) : PairedTable (.initial now) := by
  intro row member
  cases member

/- The row `id` is leased to `owner` until `e`. -/
def System.Leases (s : System) (owner id : Uuid) (e : Timestamp) : Prop :=
  ∃ row ∈ s.table, row.id = id ∧ row.lease = some (owner, e)

theorem marks_miss {table : List OutboxRow} {id : Uuid}
    (lost : ∀ row ∈ table, row.id = id → row.claimOwner ≠ some owner) (since : Timestamp)
    (error : String) : markPublished table id owner since = (table, false) ∧
      markFailed table id owner error = (table, false) ∧
      reschedulePublish table since id owner error = (table, false) := by
  have unowned : ∀ r ∈ table, r.ownedAs id owner = false := by
    intro r member
    refine Bool.eq_false_iff.mpr (fun matched => ?_)
    have owned := ownedAs_iff.mp matched
    exact lost r member owned.1 owned.2
  have unpending : ∀ r ∈ table, r.pendingAs id owner = false := by
    intro r member
    rw [OutboxRow.pendingAs, unowned r member]
    rfl
  have nobody {p : OutboxRow → Bool} (none_ : ∀ r ∈ table, p r = false) :
      (RowSet.affected p table == 1) = false := by
    rw [RowSet.affected, List.countP_eq_zero.mpr (fun r member => by simp [none_ r member])]
    rfl
  refine ⟨?_, ?_, ?_⟩
  · rw [markPublished, RowSet.updateWhere_self unowned, nobody unowned]
  · rw [markFailed, RowSet.updateWhere_self unowned, nobody unowned]
  · rw [reschedulePublish, RowSet.updateWhere_self unpending, nobody unpending]

section Step

variable [External]

theorem paired_step (tracked : Tracked s) (paired : PairedTable s) (taken : s.step a = some s') :
    PairedTable s' := by
  intro row' member
  obtain ⟨row, inside, moved⟩ | ⟨record, startedAt, _, rfl, _⟩ :=
    row_origin tracked.apart taken member
  · exact moved.paired (paired row inside)
  · rfl

theorem paired_of_reaches {ok : System → Action → Prop} (tracked : Tracked s)
    (paired : PairedTable s) (reached : Reaches System.step ok s s') : PairedTable s' :=
  reached.invariant_given PairedTable (fun _ before => tracked_of_reaches tracked before) paired
    (fun _ _ _ tracked paired _ taken => paired_step tracked paired taken)

theorem now_step (taken : s.step a = some s') : s.now ≤ s'.now := by
  rcases step_now taken with same | ⟨elapsed, _, rfl⟩
  · exact le_of_eq same.symm
  · exact Int.le_add_of_nonneg_right (Int.natCast_nonneg elapsed)

theorem now_of_reaches {ok : System → Action → Prop} (reached : Reaches System.step ok s s') :
    s.now ≤ s'.now :=
  reached.invariant (fun x => s.now ≤ x.now) le_rfl
    (fun _ _ _ before _ taken => le_trans before (now_step taken))

/- Runs in which no row is deleted. -/
def Keeps (_ : System) (a : Action) : Prop := a.purges = false

theorem row_stays (tracked : Tracked s) (keeps : a.purges = false) (taken : s.step a = some s')
    (inside : row ∈ s.table) : ∃ row' ∈ s'.table, RowMove s a row row' := by
  obtain stays | ⟨⟨olderThan, rfl⟩, _⟩ := row_image tracked.apart taken inside
  · exact stays
  · cases keeps

/-- A row that was published or parked is never pending again. -/
theorem finished_of_reaches (tracked : Tracked s) (reached : Reaches System.step Keeps s s')
    (inside : row ∈ s.table) (finished : row.status ≠ .pending) :
    ∃ row' ∈ s'.table, row'.id = row.id ∧ row'.status ≠ .pending := by
  refine reached.invariant_given (fun x => ∃ r ∈ x.table, r.id = row.id ∧
    r.status ≠ .pending)
    (fun _ before => tracked_of_reaches tracked before)
    ⟨row, inside, rfl, finished⟩ ?_
  rintro x b y tracked ⟨r, member, same, finished⟩ keeps taken
  obtain ⟨r', member', moved⟩ := row_stays tracked keeps taken member
  refine ⟨r', member', (congrArg Staged.id moved.toStaged).trans same, ?_⟩
  cases moved with
  | kept => exact finished
  | leased o relay plan reply ms _ _ _ due => exact absurd (claimable_iff.mp due).1 finished
  | settled o reply at_ _ _ _ _ settles =>
    cases settles with
    | published => simp [OutboxRow.published]
    | parked => simp [OutboxRow.parked]
    | rescheduled t error pending => exact absurd pending finished
    | released pending => exact absurd pending finished

/-- Nobody takes a row over while its lease runs; only the holder's own settling ends it. -/
theorem lease_lost (tracked : Tracked s) (paired : PairedTable s) (keeps : a.purges = false)
    (taken : s.step a = some s') {e : Timestamp} (inside : row ∈ s.table)
    (leased : row.lease = some (owner, e))
    (lost : ¬ s'.Leases owner row.id e) :
    e ≤ s.now ∨ ∃ reply at_ row', a = .database owner reply at_ ∧ row' ∈ s'.table ∧
      row.Settles row' := by
  obtain ⟨row', inside', moved⟩ := row_stays tracked keeps taken inside
  have same : row'.id = row.id := congrArg Staged.id moved.toStaged
  have gone : row'.lease ≠ some (owner, e) := fun kept => lost ⟨row', inside', same, kept⟩
  have cell := moved.lease (paired row inside)
  rw [leased] at cell
  rcases cell.lost gone with expired | ended
  · exact .inl expired
  · right
    cases moved with
    | kept => exact absurd leased gone
    | leased o relay plan reply ms => cases ended
    | settled o reply at_ _ _ called owned settles =>
      obtain rfl := Option.some.inj ((lease_eq_some.mp leased).1.symm.trans owned)
      exact ⟨reply, at_, row', called, inside', settles⟩

/- The claim from `s` to `s'` returned the row `id` to `owner`, leased until `expires`. -/
def Returns (s s' : System) (owner id : Uuid) (expires : Timestamp) : Prop :=
  ∃ relay plan batch, s.step (.claim owner relay plan .ok) = some s' ∧
    s'.batches owner = some batch ∧ (∃ record ∈ batch.leased, record.id = id) ∧
    ∃ row ∈ s'.table, row.id = id ∧ row.claimExpiresAt = some expires

theorem returns_leases (tracked : Tracked s) {id : Uuid} {expires : Timestamp}
    (returned : Returns s s' owner id expires) : s.batches owner = none ∧
      (∃ batch, s'.batches owner = some batch) ∧
      ∃ row ∈ s.table, row.id = id ∧ row.claimable s.now = true ∧
        row.leased owner expires ∈ s'.table := by
  obtain ⟨relay, plan, batch, taken, known, ⟨record, leased, rfl⟩, row', inside',
      same, expires'⟩ :=
    returned
  obtain ⟨fresh, _⟩ := claim_cases taken
  refine ⟨fresh, ⟨batch, known⟩, ?_⟩
  rcases claim_leases taken with ⟨_, e, ended⟩ | ⟨ms, records, spec, running⟩
  · obtain rfl := Option.some.inj (ended.symm.trans known)
    cases leased
  · obtain rfl := Option.some.inj (running.symm.trans known)
    obtain ⟨r, picked, rfl⟩ := spec.returned leased
    have due := spec.due r picked
    obtain ⟨r', before, ⟨unpicked, rfl⟩ | ⟨chosen, rfl⟩⟩ :=
      spec.origin tracked.unique inside'
    · exact absurd (tracked.same_id before due.1 same ▸ picked) unpicked
    · obtain rfl := tracked.same_id before due.1 same
      obtain rfl := Option.some.inj expires'
      exact ⟨_, before, rfl, due.2.1, inside'⟩

/-- A lease taken over had expired, or its own holder released or rescheduled the row. -/
theorem handover (tracked : Tracked s) (paired : PairedTable s) {id other : Uuid} {e f : Timestamp}
    {next : System} (leased : s.Leases owner id e)
    (path : Reaches System.step Keeps s s') (returned : Returns s' next other id f) :
    e ≤ s'.now ∨ ∃ x reply at_ y, Reaches System.step Keeps s x ∧
      x.step (.database owner reply at_) = some y ∧ Reaches System.step Keeps y s' ∧
      ∃ row ∈ x.table, row.id = id ∧ row.claimOwner = some owner ∧
        (row.released ∈ y.table ∨
          ∃ since error, row.rescheduled since error ∈ y.table) := by
  have later := tracked_of_reaches tracked path
  obtain ⟨_, _, row', inside', same', due, _⟩ := returns_leases later returned
  obtain ⟨pending, _, free⟩ := claimable_iff.mp due
  have paired' : PairedTable s' := paired_of_reaches tracked paired path
  by_cases kept : s'.Leases owner id e
  · obtain ⟨row, member, same, leased⟩ := kept
    obtain rfl := later.same_id member inside' (same.trans same'.symm)
    exact .inl ((leaseFree_iff (paired' row member)).mp free owner e leased)
  · obtain ⟨x, a, y, front, keeps, taken, back, ⟨row, member, same, leased⟩, lost⟩ :=
      path.exists_step_lost (·.Leases owner id e) leased kept
    have trackedX := tracked_of_reaches tracked front
    rcases lease_lost trackedX (paired_of_reaches tracked paired front) keeps taken member leased
      (same ▸ lost) with expired | ⟨reply, at_, settled, rfl, after, settles⟩
    · exact .inl (le_trans expired (le_trans (now_step taken) (now_of_reaches back)))
    · right
      refine ⟨x, reply, at_, y, front, taken, back, row, member, same,
        (lease_eq_some.mp leased).1, ?_⟩
      have final (finished : settled.status ≠ .pending) : False := by
        obtain ⟨r, found, sameR, done⟩ :=
          finished_of_reaches (tracked_step trackedX taken) back after finished
        have one : r = row' := later.same_id found inside'
          (sameR.trans ((congrArg Staged.id settles.toStaged).trans (same.trans same'.symm)))
        exact done (one ▸ pending)
      cases settles with
      | published => exact (final (by simp [OutboxRow.published])).elim
      | parked => exact (final (by simp [OutboxRow.parked])).elim
      | rescheduled since error => exact .inr ⟨since, error, after⟩
      | released => exact .inl after

theorem known_of_reaches {ok : System → Action → Prop} (path : Reaches System.step ok s s')
    (known : ∃ batch, s.batches owner = some batch) :
    ∃ batch, s'.batches owner = some batch := by
  refine path.invariant (fun x => ∃ batch, x.batches owner = some batch) known ?_
  rintro x a y ⟨batch, known⟩ _ taken
  obtain ⟨batch', known', _⟩ := step_known_batch taken known
  exact ⟨batch', known'⟩

theorem crashed_of_reaches {ok : System → Action → Prop} (path : Reaches System.step ok s s')
    (crashed : ∃ batch, s.batches owner = some batch ∧ batch.phase = .crashed) :
    ∃ batch, s'.batches owner = some batch ∧ batch.phase = .crashed := by
  refine path.invariant (fun x => ∃ batch, x.batches owner = some batch ∧
    batch.phase = .crashed)
    crashed ?_
  rintro x a y ⟨batch, known, phase⟩ _ taken
  obtain ⟨batch', known', same⟩ := ended_step taken known (by rw [phase]; rfl)
  exact ⟨batch', known', same.trans phase⟩

/- What a drain about to hand `record` over knows: it is still leased to its owner,
unless the lease has run out or the drain crashed. -/
def Handing (owner : Uuid) (record : OutboxRecord) (e : Timestamp) (s : System) : Prop :=
  ∃ batch, s.batches owner = some batch ∧ (batch.phase = .crashed ∨
    ((∃ bytes rest n, batch.phase = .offer bytes record rest n) ∧
      (e ≤ s.now ∨ s.Leases owner record.id e)))

theorem handing_step (tracked : Tracked s) (paired : PairedTable s) (keeps : a.purges = false)
    (waits : a ≠ .publish owner) (taken : s.step a = some s') {record : OutboxRecord}
    {e : Timestamp}
    (handing : Handing owner record e s) : Handing owner record e s' := by
  obtain ⟨batch, known, crashed | ⟨⟨bytes, rest, n, phase⟩, live⟩⟩ := handing
  · obtain ⟨batch', known', same⟩ := ended_step taken known (by rw [crashed]; rfl)
    exact ⟨batch', known', .inl (same.trans crashed)⟩
  · rcases offer_step taken known phase with ⟨known', others⟩ | publishes |
      ⟨batch', known', crashed⟩
    · refine ⟨batch, known', .inr ⟨⟨bytes, rest, n, phase⟩, ?_⟩⟩
      rcases live with expired | ⟨row, member, same, leased⟩
      · exact .inl (le_trans expired (now_step taken))
      · by_cases kept : s'.Leases owner row.id e
        · exact .inr (same ▸ kept)
        · rcases lease_lost tracked paired keeps taken member leased kept with
            expired | ⟨_, _, _, rfl, _⟩
          · exact .inl (le_trans expired (now_step taken))
          · exact absurd rfl others
    · exact absurd publishes waits
    · exact ⟨batch', known', .inl crashed⟩

/-- An owner whose batch is known gains no row. -/
theorem never_regained (tracked : Tracked s) {id : Uuid}
    (known : ∃ batch, s.batches owner = some batch)
    (lost : ∀ row ∈ s.table, row.id = id → row.claimOwner ≠ some owner)
    {ok : System → Action → Prop} (path : Reaches System.step ok s s') :
    ∀ row ∈ s'.table, row.id = id → row.claimOwner ≠ some owner := by
  refine (path.invariant_given (fun x => (∃ batch, x.batches owner = some batch) ∧
    ∀ row ∈ x.table, row.id = id → row.claimOwner ≠ some owner)
    (fun _ before => tracked_of_reaches tracked before) ⟨known, lost⟩ ?_).2
  rintro x b y trackedX ⟨⟨batch, knownX⟩, lostX⟩ _ taken
  obtain ⟨batch', knownY, _⟩ := step_known_batch taken knownX
  refine ⟨⟨batch', knownY⟩, ?_⟩
  intro row member same owned
  exact lostX row (owned_origin trackedX.apart taken knownX member owned) same owned

/- The lease law of the drain, over every run that deletes no row. -/
structure LeaseLaw (now : Timestamp) : Prop where
  handover : ∀ {x y z w A B id e f}, Reaches System.step Keeps (.initial now) x →
    Returns x y A id e → Reaches System.step Keeps y z → Returns z w B id f →
    e ≤ z.now ∨ ∃ u reply at_ v, Reaches System.step Keeps y u ∧
      u.step (.database A reply at_) = some v ∧ Reaches System.step Keeps v z ∧
      ∃ row ∈ u.table, row.id = id ∧ row.claimOwner = some A ∧
        (row.released ∈ v.table ∨ ∃ since error, row.rescheduled since error ∈ v.table)
  single : ∀ {x id A B}, Reaches System.step Keeps (.initial now) x →
    claimStillHeld x.table x.now id A = true → claimStillHeld x.table x.now id B = true → A = B
  complete : ∀ {x row A}, Reaches System.step Keeps (.initial now) x → row ∈ x.table →
    row.status = .pending → row.claimOwner = some A →
    (claimStillHeld x.table x.now row.id A = true ↔ row.leaseFree x.now = false)
  covered : ∀ {x reply at_ y z w v A batch bytes record rest n row e B},
    Reaches System.step Keeps (.initial now) x → x.step (.database A reply at_) = some y →
    y.batches A = some batch → batch.phase = .offer bytes record rest n →
    row ∈ y.table → row.id = record.id → row.claimExpiresAt = some e →
    Reaches System.step (fun s a => Keeps s a ∧ a ≠ .publish A) y z →
    Reaches System.step (fun s a => Keeps s a ∧ a ≠ .publish A) z w →
    w.step (.publish A) = some v → w.now < e →
    claimStillHeld z.table z.now record.id B = true → B = A
  fenced : ∀ {x y z w t A B id e f}, Reaches System.step Keeps (.initial now) x →
    Returns x y A id e → Reaches System.step Keeps y z → Returns z w B id f →
    Reaches System.step Keeps w t →
    (∀ since error, markPublished t.table id A since = (t.table, false) ∧
      markFailed t.table id A error = (t.table, false) ∧
      reschedulePublish t.table since id A error = (t.table, false)) ∧
    ∀ row ∈ t.table, row.id = id →
      row ∈ (releaseOutboxClaims t.table A).1 ∧ row.pendingOf A = false

/-- A probe that passed found the row leased to the owner, past the present moment. -/
theorem probed_leases {reply : Reply} {at_ : Timestamp} (tracked : Tracked s)
    (taken : s.step (.database owner reply at_) = some s') (known : s'.batches owner = some batch)
    {bytes : List UInt8} {record : OutboxRecord} {rest : List OutboxRecord} {n : Nat}
    (phase : batch.phase = .offer bytes record rest n) :
    s'.table = s.table ∧ ∃ e, s.Leases owner record.id e ∧ s.now < e := by
  obtain ⟨b, c, _, called, ⟨_, rfl⟩ | ⟨e, _, rfl⟩ | ⟨e, _, rfl⟩⟩ :=
    database_cases taken
  all_goals
    have written := Option.some.inj ((if_pos rfl).symm.trans known)
    rw [← written] at phase
  · obtain ⟨_, _, live, same⟩ := (call_offering called).1 phase
    refine ⟨same, ?_⟩
    obtain ⟨r, member, matched⟩ := List.any_eq_true.mp live
    have sameId := (ownedAs_iff.mp (Bool.and_eq_true_iff.mp matched).1).1
    obtain ⟨e, leased, before⟩ := (claimStillHeld_iff tracked member).mp (sameId ▸ live)
    exact ⟨e, ⟨r, member, sameId, leased⟩, before⟩
  · exact absurd phase ((call_offering called).2 _)
  · exact absurd phase ((call_offering called).2 _)

theorem leases_exclusive_and_fenced (now : Timestamp) : LeaseLaw now where
  handover := by
    intro x y z w A B id e f reached first path second
    have tracked := tracked_of_reaches (tracked_initial now) reached
    have paired := paired_of_reaches (tracked_initial now) (paired_initial now) reached
    obtain ⟨_, _, row, _, same, _, leased⟩ := returns_leases tracked first
    obtain ⟨_, _, _, taken, _⟩ := first
    exact FiduciaMessaging.handover (tracked_step tracked taken) (paired_step tracked paired taken)
      ⟨_, leased, same, lease_eq_some.mpr ⟨rfl, rfl⟩⟩ path second
  single := by
    intro x id A B reached heldA heldB
    have tracked := tracked_of_reaches (tracked_initial now) reached
    obtain ⟨row, member, matched⟩ := List.any_eq_true.mp heldA
    have same := (ownedAs_iff.mp (Bool.and_eq_true_iff.mp matched).1).1
    rw [← same] at heldA heldB
    exact Lease.held_unique ((claimStillHeld_iff tracked member).mp heldA)
      ((claimStillHeld_iff tracked member).mp heldB)
  complete := by
    intro x row A reached member _ owned
    have tracked := tracked_of_reaches (tracked_initial now) reached
    have paired := paired_of_reaches (tracked_initial now) (paired_initial now) reached row member
    have expiry : row.claimExpiresAt.isSome = true := by
      rw [← paired, owned]
      rfl
    obtain ⟨e, expires⟩ := Option.isSome_iff_exists.mp expiry
    rw [claimStillHeld_iff tracked member, ← Bool.not_eq_true, leaseFree_iff paired,
      lease_eq_some.mpr ⟨owned, expires⟩]
    exact Lease.held_iff_not_free
  covered := by
    intro x reply at_ y z w v A batch bytes record rest n row e B reached probed known phase member
      same expires front back publishes before heldB
    have trackedX := tracked_of_reaches (tracked_initial now) reached
    have pairedX := paired_of_reaches (tracked_initial now) (paired_initial now) reached
    obtain ⟨kept, e', ⟨r, member', same', leased⟩, _⟩ :=
      probed_leases trackedX probed known phase
    have trackedY := tracked_step trackedX probed
    have pairedY := paired_step trackedX pairedX probed
    obtain rfl := trackedY.same_id member (kept ▸ member') (same.trans same'.symm)
    obtain rfl := Option.some.inj (expires.symm.trans (lease_eq_some.mp leased).2)
    have start : Handing A record e y :=
      ⟨batch, known, .inr ⟨⟨bytes, rest, n, phase⟩,
        .inr ⟨row, member, same, leased⟩⟩⟩
    have handing : Handing A record e z := front.invariant_given (Handing A record e)
      (fun _ path => And.intro (tracked_of_reaches trackedY path)
        (paired_of_reaches trackedY pairedY path)) start
      (fun _ _ _ known held allowed taken =>
        handing_step known.1 known.2 allowed.1 allowed.2 taken held)
    obtain ⟨batchZ, knownZ, crashed | ⟨_, expired | ⟨r, memberZ, sameZ, leasedZ⟩⟩⟩ :=
      handing
    · obtain ⟨batchW, knownW, crashedW⟩ :=
        crashed_of_reaches back ⟨batchZ, knownZ, crashed⟩
      obtain ⟨b, _, _, _, _, knownW', offering, _⟩ := publish_cases publishes
      obtain rfl := Option.some.inj (knownW.symm.trans knownW')
      cases crashedW.symm.trans offering
    · have later := now_of_reaches back
      exact absurd before (not_lt.mpr (le_trans expired later))
    · have trackedZ := tracked_of_reaches trackedY front
      obtain ⟨f, sameLease, live⟩ := (claimStillHeld_iff trackedZ memberZ).mp (sameZ ▸ heldB)
      rw [leasedZ] at sameLease
      exact (Prod.mk.inj (Option.some.inj sameLease)).1.symm
  fenced := by
    intro x y z w t A B id e f reached first path second tail
    have trackedX := tracked_of_reaches (tracked_initial now) reached
    obtain ⟨_, drawn, _⟩ := returns_leases trackedX first
    obtain ⟨_, _, _, taken, _⟩ := first
    have trackedZ := tracked_of_reaches (tracked_step trackedX taken) path
    obtain ⟨batchA, knownA⟩ := known_of_reaches path drawn
    obtain ⟨fresh, _, row, _, same, _, leased⟩ := returns_leases trackedZ second
    obtain ⟨_, _, _, claimed, _⟩ := second
    have trackedW := tracked_step trackedZ claimed
    have lost : ∀ r ∈ w.table, r.id = id → r.claimOwner ≠ some A := by
      intro r member sameR owned
      obtain rfl := trackedW.same_id member leased (sameR.trans same.symm)
      obtain rfl := Option.some.inj owned
      cases fresh.symm.trans knownA
    obtain ⟨batchW, knownW, _⟩ := step_known_batch claimed knownA
    have gone := never_regained trackedW ⟨batchW, knownW⟩ lost tail
    refine ⟨fun since error => marks_miss gone since error, ?_⟩
    intro r member sameR
    have unowned : r.pendingOf A = false := by
      refine Bool.eq_false_iff.mpr (fun matched => ?_)
      exact gone r member sameR (pendingOf_iff.mp matched).2
    exact ⟨RowSet.mem_updateWhere.mpr ⟨r, member, by rw [unowned]; rfl⟩, unowned⟩

end Step

end FiduciaMessaging
