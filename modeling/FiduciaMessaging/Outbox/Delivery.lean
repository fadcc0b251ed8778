import FiduciaMessaging.Outbox.Invariants
import FiduciaMessaging.Foundations.Handoff

/-! The table and the broker's log as two stores of one hand-off: a row leaves
the pending state only after the log holds its message. -/
namespace FiduciaMessaging

open Runs

/- The steps of a producer that enqueues only what the constructors build. -/
def Action.Builds [External] (a : Action) : Prop :=
  ∀ record startedAt, a = .enqueue record startedAt → record.Built

/- The outbox as the two stores of a hand-off, keyed by the staged row. -/
def System.stores (s : System) : Handoff.Stores Staged where
  accepted := {staged | Event.staged staged ∈ s.trace}
  waiting := {staged | ∃ row ∈ s.table, row.toStaged = staged ∧
    (row.status = .pending ∨ row.status = .failed)}
  delivered := {staged | s.stored staged.dedupId = true}

/- What the log is known to hold: published rows, and records waiting for their mark. -/
structure Confirmed (s : System) : Prop where
  published : ∀ row ∈ s.table, row.status = .published → s.stored row.dedupId = true
  marking : ∀ o b, s.batches o = some b → ∀ record rest n, b.phase = .mark record rest n →
    s.stored record.dedupId = true

variable {s s' : System} {a : Action} {row row' : OutboxRow}

theorem confirmed_initial (now : Timestamp) : Confirmed (.initial now) where
  published := by
    intro row member
    cases member
  marking := by
    intro o b known
    cases known

section Step

variable [External]

theorem stored_step (taken : s.step a = some s') {dedupId : String}
    (stored : s.stored dedupId = true) : s'.stored dedupId = true := by
  unfold System.stored at *
  rcases step_log taken with same | ⟨message, _, _, grown⟩
  · rw [same]
    exact stored
  · rw [grown, List.any_append, stored]
    rfl

/-- A row published by a step was published before or is the record just marked. -/
theorem published_step (tracked : Tracked s) (confirmed : Confirmed s) (built : a.Builds)
    (taken : s.step a = some s') (member : row' ∈ s'.table)
    (published : row'.status = .published) :
    s.stored row'.dedupId = true := by
  have kept (inside : row' ∈ s.table) : s.stored row'.dedupId = true :=
    confirmed.published row' inside published
  have marked {owner at_ b c} (known : s.batches owner = some b)
      (called : b.call s.table s.now owner at_ = some c) (inside : row' ∈ c.table) :
      s.stored row'.dedupId = true := by
    obtain before | ⟨r, rest, n, phase, row, before, same, owned, rfl⟩ :=
      call_published called inside published
    · exact kept before
    · have held : r ∈ b.phase.held := by
        rw [phase]
        exact List.mem_cons_self
      have copied := tracked.snapshot owner b known r held row before same owned
      change s.stored row.toStaged.dedupId = true
      rw [copied]
      exact confirmed.marking owner b known r rest n phase
  cases step_moves taken with
  | enqueued valid clear =>
    rcases List.mem_append.mp member with old | new
    · exact kept old
    · rw [List.mem_singleton.mp new, OutboxRecord.row, (built _ _ rfl).starts.1] at published
      contradiction
  | claimed fresh positive spec => exact kept (spec.unpublished tracked.unique member published)
  | claimLost fresh positive spec => exact kept (spec.unpublished tracked.unique member published)
  | called known called => exact marked known called member
  | callLost known called => exact marked known called member
  | purged => exact kept (RowSet.mem_deleteWhere.mp member).1
  | _ => exact kept member

theorem confirmed_step (tracked : Tracked s) (confirmed : Confirmed s) (built : a.Builds)
    (taken : s.step a = some s') : Confirmed s' where
  published := by
    intro row member published
    exact stored_step taken (published_step tracked confirmed built taken member published)
  marking := by
    intro o b known record rest n phase
    apply stored_step taken
    cases before : s.batches o with
    | none =>
      obtain ⟨_, start⟩ | ⟨_, _, start⟩ := step_new_phase taken before known <;>
        cases start.symm.trans phase
    | some earlier =>
      obtain ⟨_, _, moved⟩ := step_batch taken before known
      rcases moved with ⟨_, rfl⟩ | moved
      · exact confirmed.marking o _ before record rest n phase
      · rw [phase] at moved
        generalize marked : Phase.mark record rest n = target at moved
        cases moved with
        | call c at_ _ called => exact absurd marked.symm (call_not_marking called).1
        | error c reply at_ e _ _ called =>
          exact absurd marked.symm ((call_not_marking called).2 _)
        | acknowledged r rest' n' _ publishing present =>
          cases marked
          exact present
        | publish => cases marked
        | refused => cases marked
        | crash => cases marked

/-- Every step of the machine is a move of the hand-off. -/
theorem stores_move (tracked : Tracked s) (confirmed : Confirmed s) (built : a.Builds)
    (taken : s.step a = some s') : Handoff.Move s.stores s'.stores where
  accepts := by
    intro staged accepted
    obtain old | ⟨record, startedAt, rfl, rfl, inserted⟩ := step_staged taken accepted
    · exact .inl old
    · exact .inr ⟨_, inserted, rfl, .inl (built record startedAt rfl).starts.1⟩
  keeps := by
    intro staged delivered
    exact stored_step taken delivered
  discharges := by
    rintro staged ⟨row, inside, rfl, open_⟩
    obtain ⟨row', inside', moved⟩ | ⟨_, published⟩ := row_image tracked.apart taken inside
    · have same := moved.toStaged
      cases status : row'.status with
      | pending => exact .inl ⟨row', inside', same, .inl status⟩
      | failed => exact .inl ⟨row', inside', same, .inr status⟩
      | published =>
        have logged := published_step tracked confirmed built taken inside' status
        rw [show row'.dedupId = row.dedupId from congrArg Staged.dedupId same] at logged
        exact .inr (stored_step taken logged)
    · rw [published] at open_
      rcases open_ with impossible | impossible <;> cases impossible

end Step

/- Along a run. -/

section Run

variable [External] {now : Timestamp} {ok : System → Action → Prop}

theorem confirmed_of_reaches (builds : ∀ x a, ok x a → a.Builds)
    (reached : Reaches System.step ok (.initial now) s) : Confirmed s :=
  reached.invariant_given Confirmed
    (fun _ before => tracked_of_reaches (tracked_initial now) before) (confirmed_initial now)
    (fun _ _ _ tracked before allowed taken =>
      confirmed_step tracked before (builds _ _ allowed) taken)

theorem lossless_of_reaches (builds : ∀ x a, ok x a → a.Builds)
    (reached : Reaches System.step ok (.initial now) s) : s.stores.Lossless := by
  have known (x : System) (before : Reaches System.step ok (.initial now) x) :
      Tracked x ∧ Confirmed x :=
    ⟨tracked_of_reaches (tracked_initial now) before, confirmed_of_reaches builds before⟩
  have moves := reached.simulates System.stores known
    (fun _ _ _ invariants allowed taken =>
      stores_move invariants.1 invariants.2 (builds _ _ allowed) taken)
  refine Handoff.lossless_of_moves moves ?_
  intro staged accepted
  cases accepted

theorem stored_of_reaches (reached : Reaches System.step ok s s') {dedupId : String}
    (stored : s.stored dedupId = true) : s'.stored dedupId = true :=
  reached.invariant (fun x => x.stored dedupId = true) stored
    (fun _ _ _ before _ taken => stored_step taken before)

end Run

/- Without a purge every staged row stays, and the broker only ever sees copies of rows. -/

def PublishedMessage.Copies [External] (message : PublishedMessage) (staged : Staged) : Prop :=
  message.subject = staged.subject ∧ message.dedupId = staged.dedupId ∧
    External.toVec staged.payload = .ok message.payload

structure Carried [External] (s : System) : Prop where
  kept : ∀ staged, Event.staged staged ∈ s.trace → ∃ row ∈ s.table, row.toStaged = staged
  held : ∀ o b, s.batches o = some b → ∀ record ∈ b.phase.held,
    ∃ row ∈ s.table, row.toStaged = record.toStaged
  bytes : ∀ o b, s.batches o = some b → ∀ bytes record rest n,
    b.phase = .offer bytes record rest n → External.toVec record.payload = .ok bytes
  sent : ∀ message ∈ s.sent, ∃ row ∈ s.table, message.Copies row.toStaged
  logged : ∀ entry ∈ s.log, entry.message ∈ s.sent

section Carried

variable [External]

theorem carried_initial (now : Timestamp) : Carried (.initial now) where
  kept := by
    intro staged member
    cases member
  held := by
    intro o b known
    cases known
  bytes := by
    intro o b known
    cases known
  sent := by
    intro message member
    cases member
  logged := by
    intro entry member
    cases member

theorem staged_stays (tracked : Tracked s) (keeps : a.purges = false) (taken : s.step a = some s')
    {staged : Staged} (inside : ∃ row ∈ s.table, row.toStaged = staged) :
    ∃ row ∈ s'.table, row.toStaged = staged := by
  obtain ⟨row, member, rfl⟩ := inside
  obtain ⟨row', inside', moved⟩ | ⟨⟨olderThan, rfl⟩, _⟩ :=
    row_image tracked.apart taken member
  · exact ⟨row', inside', moved.toStaged⟩
  · cases keeps

theorem carried_step (tracked : Tracked s) (carried : Carried s) (keeps : a.purges = false)
    (taken : s.step a = some s') : Carried s' where
  kept := by
    intro staged member
    obtain old | ⟨record, startedAt, rfl, rfl, inserted⟩ := step_staged taken member
    · exact staged_stays tracked keeps taken (carried.kept staged old)
    · exact ⟨_, inserted, rfl⟩
  held := by
    intro o b known record held
    cases before : s.batches o with
    | none =>
      obtain ⟨_, _, _, _, _, ⟨e, ended, _⟩ | ⟨_, _, _, spec, start⟩⟩ :=
        step_new_batch taken before known
      · rw [ended] at held
        cases held
      · rw [start, loop_held] at held
        obtain ⟨r, picked, rfl⟩ := spec.returned held
        exact staged_stays tracked keeps taken ⟨r, (spec.due r picked).1, rfl⟩
    | some earlier =>
      obtain ⟨_, _, moved⟩ := step_batch taken before known
      have already : record ∈ earlier.phase.held := by
        rcases moved with ⟨_, rfl⟩ | moved
        · exact held
        · exact moved.held.subset held
      exact staged_stays tracked keeps taken (carried.held o earlier before record already)
  bytes := by
    intro o b known bytes record rest n phase
    cases before : s.batches o with
    | none =>
      obtain ⟨_, start⟩ | ⟨_, _, start⟩ := step_new_phase taken before known <;>
        cases start.symm.trans phase
    | some earlier =>
      obtain ⟨_, _, moved⟩ := step_batch taken before known
      rcases moved with ⟨_, rfl⟩ | moved
      · exact carried.bytes o _ before bytes record rest n phase
      · rw [phase] at moved
        exact prepare_bytes moved.offer.2.1
  sent := by
    intro message member
    have stays (inside : ∃ row ∈ s.table, message.Copies row.toStaged) :
        ∃ row ∈ s'.table, message.Copies row.toStaged := by
      obtain ⟨row, inside, copies⟩ := inside
      obtain ⟨row', inside', same⟩ := staged_stays tracked keeps taken ⟨row, inside, rfl⟩
      exact ⟨row', inside', same ▸ copies⟩
    apply stays
    rcases step_sent taken with same | ⟨o, b, bytes, record, rest, n, _, known, phase, grown⟩
    · exact carried.sent message (same ▸ member)
    · rw [grown] at member
      rcases List.mem_append.mp member with old | new
      · exact carried.sent message old
      · obtain rfl := List.mem_singleton.mp new
        have held : record ∈ b.phase.held := by
          rw [phase]
          exact List.mem_cons_self
        obtain ⟨row, inside, same⟩ := carried.held o b known record held
        refine ⟨row, inside, ?_⟩
        rw [same]
        exact ⟨rfl, rfl, carried.bytes o b known bytes record rest n phase⟩
  logged := by
    intro entry member
    have kept {message : PublishedMessage} (inside : message ∈ s.sent) : message ∈ s'.sent := by
      rcases step_sent taken with same | ⟨_, _, _, _, _, _, _, _, _, grown⟩
      · exact same ▸ inside
      · rw [grown]
        exact List.mem_append_left _ inside
    apply kept
    rcases step_log taken with same | ⟨message, inside, _, grown⟩
    · exact carried.logged entry (same ▸ member)
    · rw [grown] at member
      rcases List.mem_append.mp member with old | new
      · exact carried.logged entry old
      · rw [List.mem_singleton.mp new]
        exact inside

theorem carried_of_reaches {now : Timestamp} {ok : System → Action → Prop}
    (keeps : ∀ x a, ok x a → a.purges = false)
    (reached : Reaches System.step ok (.initial now) s) : Carried s :=
  reached.invariant_given Carried
    (fun _ before => tracked_of_reaches (tracked_initial now) before) (carried_initial now)
    (fun _ _ _ tracked before allowed taken =>
      carried_step tracked before (keeps _ _ allowed) taken)

/-- A logged message with the id of a staged row is that row's message. -/
theorem Carried.logged_copies (carried : Carried s) (tracked : Tracked s) {entry : Entry}
    (logged : entry ∈ s.log) {staged : Staged} (inserted : Event.staged staged ∈ s.trace)
    (same : entry.message.dedupId = staged.dedupId) : entry.message.Copies staged := by
  obtain ⟨row, inside, copies⟩ := carried.sent _ (carried.logged entry logged)
  obtain ⟨row', inside', rfl⟩ := carried.kept staged inserted
  have one : row = row' := tracked.same_dedup inside inside' (copies.2.1.symm.trans same)
  exact one ▸ copies

end Carried

/- No message is lost. -/

theorem stored_iff {dedupId : String} :
    s.stored dedupId = true ↔ ∃ entry ∈ s.log, entry.message.dedupId = dedupId := by
  simp [System.stored]

theorem purged_published {olderThan : Duration} (inside : row ∈ s.table)
    (gone : row ∉ (s.purge olderThan).table) : row.status = .published := by
  obtain same | ⟨cutoff, purged⟩ := purge_cases (s := s) olderThan
  · rw [same] at gone
    exact absurd inside gone
  · rw [purged] at gone
    cases old : row.purgeable cutoff with
    | false => exact absurd (RowSet.mem_deleteWhere.mpr ⟨inside, old⟩) gone
    | true =>
      simp only [OutboxRow.purgeable, Bool.and_eq_true, beq_iff_eq] at old
      exact old.1

/- What a run owes to the rows it inserted. -/
structure NothingLost [External] (now : Timestamp) (as : List Action) (s : System) : Prop where
  inserted : ∀ staged, Event.staged staged ∈ s.trace →
    (∃ row ∈ s.table, row.toStaged = staged ∧
      (row.status = .pending ∨ row.status = .failed)) ∨
      ∃ entry ∈ s.log, entry.message.dedupId = staged.dedupId
  published : ∀ row ∈ s.table, row.status = .published →
    ∃ entry ∈ s.log, entry.message.dedupId = row.dedupId
  purged : ∀ front olderThan back x, as = front ++ .purge olderThan :: back →
    run System.step (.initial now) front = some x →
    ∀ row ∈ x.table, row ∉ (x.purge olderThan).table →
      ∃ entry ∈ s.log, entry.message.dedupId = row.dedupId
  copied : (∀ a ∈ as, a.purges = false) → ∀ staged, Event.staged staged ∈ s.trace →
    ∀ entry ∈ s.log, entry.message.dedupId = staged.dedupId → entry.message.Copies staged

/-- Along any interleaving an inserted row is still pending or failed, or the broker
holds a message with its id; so it does for every published row and for every row a
purge deleted. Without purges that message is the row's own. -/
theorem no_message_lost [External] {now : Timestamp} (as : List Action)
    (taken : run System.step (.initial now) as = some s) (built : ∀ a ∈ as, a.Builds) :
    NothingLost now as s := by
  have builds : ∀ (_ : System) (a : Action), a.Builds → a.Builds := fun _ _ holds => holds
  have reached := reaches_of_run (fun _ a => a.Builds) as taken (fun _ => built)
  refine ⟨?_, ?_, ?_, ?_⟩
  · intro staged inserted
    exact (lossless_of_reaches builds reached inserted).imp_right stored_iff.mp
  · intro row inside published
    exact stored_iff.mp ((confirmed_of_reaches builds reached).published row inside published)
  · intro front olderThan back x split path row inside gone
    rw [split] at taken built
    have before := reaches_of_run (fun _ a => a.Builds) front path
      (fun _ a member => built a (List.mem_append_left _ member))
    obtain ⟨x', path', rest⟩ :=
      Option.bind_eq_some_iff.mp ((run_append _ _ _ _).symm.trans taken)
    obtain rfl := Option.some.inj (path.symm.trans path')
    have after := reaches_of_run (fun _ a => a.Builds) _ rest
      (fun _ a member => built a (List.mem_append_right _ member))
    have stored := (confirmed_of_reaches builds before).published row inside
      (purged_published inside gone)
    exact stored_iff.mp (stored_of_reaches after stored)
  · intro keeps staged inserted entry logged same
    have quiet := reaches_of_run (fun _ a => a.purges = false) as taken (fun _ => keeps)
    have carried := carried_of_reaches (fun _ _ keeps => keeps) quiet
    exact carried.logged_copies (tracked_of_reaches (tracked_initial now) quiet)
      logged inserted same

section Sample

attribute [local instance] Sample.external

open Sample

/- One row drained, marked and purged, with a second row still pending. -/
def drainedRun : List Action :=
  [.enqueue order1 0, .claim 7 .new plan .ok, .database 7 .ok 0, .publish 7,
    .append (message order1), .answer 7 (.ok ()), .database 7 .ok 0, .enqueue order2 0,
    .tick 2000000, .purge (Duration.fromSecs 1)]

theorem drainedRun_built : ∀ a ∈ drainedRun, a.Builds := by
  intro a member record startedAt same
  subst same
  simp only [drainedRun, List.mem_cons, Action.enqueue.injEq, reduceCtorEq, false_or, or_false,
    List.not_mem_nil] at member
  rcases member with ⟨rfl, _⟩ | ⟨rfl, _⟩
  · exact .pending _ _ _ _ _
  · exact .pending _ _ _ _ _

theorem drainedRun_runs : (run System.step (.initial 0) drainedRun).isSome = true := by
  decide +kernel

theorem no_message_lost_drained :
    ∃ s, run System.step (.initial 0) drainedRun = some s ∧ NothingLost 0 drainedRun s := by
  obtain ⟨s, taken⟩ := Option.isSome_iff_exists.mp drainedRun_runs
  exact ⟨s, taken, no_message_lost drainedRun taken drainedRun_built⟩

end Sample

end FiduciaMessaging
