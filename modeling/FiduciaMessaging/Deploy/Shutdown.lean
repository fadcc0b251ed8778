import FiduciaMessaging.Deploy.FailClosed
import FiduciaMessaging.Outbox.Lapse
import FiduciaMessaging.Outbox.Ledger

/-! What a deployment leaves leased when its processes stop. The stop signal is heard
between two batches only, so a process that returned from `run_until` holds no lease that
still runs; one that died holds at most those of its last batch. -/
namespace FiduciaMessaging

open Runs

/- The invariants of the relay machine that the leases need. -/
structure Orderly (s : System) : Prop where
  tracked : Tracked s
  paired : PairedTable s
  ledger : Ledger s
  lapsing : ∀ o, Lapsing o s

theorem orderly_initial (now : Timestamp) : Orderly (.initial now) where
  tracked := tracked_initial now
  paired := paired_initial now
  ledger := ledger_initial now
  lapsing := fun o => {
    distinct := by
      intro b known
      cases known
    leases := by
      intro b known
      cases known }

/- Every batch that has not returned is the one its process is waiting for, and the batch
that a process was in when it died has crashed, unless it had returned by then. -/
structure Fleet.Staffed (f : Fleet) : Prop where
  known : ∀ n p, f.processes n = some p → ∀ o, p.batch = some o →
    ∃ b, f.system.batches o = some b
  batches : ∀ o b, f.system.batches o = some b → (∃ result, b.phase = .done result) ∨
    ∃ n p, f.processes n = some p ∧ p.batch = some o
  gone : ∀ n p, f.processes n = some p → p.gone = true → ∀ o b, p.batch = some o →
    f.system.batches o = some b → b.phase.ended = true

theorem staffed_initial (now : Timestamp) (deployed : Option StreamConfig) :
    (Fleet.initial now deployed).Staffed where
  known := by
    intro n p found
    cases found
  batches := by
    intro o b known
    cases known
  gone := by
    intro n p found
    cases found

section Shutdown

variable [External] {f f' : Fleet} {a : FleetAction} {s : System} {now : Timestamp}
  {deployed : Option StreamConfig} {o : Uuid} {b : Batch}

/- The answers that the leases of a deployment rest on. -/
def Fleet.orderly (f : Fleet) : FleetAction → Bool
  | .timer n owner plan reply =>
    match f.processes n with
    | some p => FiduciaMessaging.orderly f.system (.claim owner p.service.relay plan reply)
    | none => true
  | .work a => FiduciaMessaging.orderly f.system a
  | _ => true

theorem orderly_step {s' : System} {act : Action} (before : Orderly s)
    (quiet : FiduciaMessaging.orderly s act = true) (taken : s.step act = some s') :
    Orderly s' where
  tracked := tracked_step before.tracked taken
  paired := paired_step before.tracked before.paired taken
  ledger := ledger_step before.tracked before.ledger taken
  lapsing := fun o => lapsing_step before.tracked before.paired before.ledger.waiting
    (before.lapsing o) quiet taken

theorem orderly_moves (before : Orderly f.system) (quiet : f.orderly a = true)
    (moves : f.Moves a s) : Orderly s := by
  cases moves with
  | still => exact before
  | claimed found _ _ taken =>
    refine orderly_step before ?_ taken
    simpa [Fleet.orderly, (running_found found).1] using quiet
  | crashed _ _ taken => exact orderly_step before rfl taken
  | @purged n age p _ _ =>
    have purged : f.system.step (.purge age) = some (f.system.purge age) := rfl
    exact orderly_step before rfl purged
  | worked _ _ taken => exact orderly_step before quiet taken
  | ticked taken => exact orderly_step before rfl taken
  | stored _ taken => exact orderly_step before rfl taken

theorem moves_known (moves : f.Moves a s) (known : ∃ b, f.system.batches o = some b) :
    ∃ b, s.batches o = some b := by
  refine moves_keeps (fun x => ∃ b, x.batches o = some b) ?_ known moves
  rintro x act y ⟨b, known⟩ taken
  obtain ⟨b', known', _⟩ := step_known_batch taken known
  exact ⟨b', known'⟩

/-- A batch that has ended stays as it is. -/
theorem moves_ended {phase : Phase} (moves : f.Moves a s)
    (known : ∃ b, f.system.batches o = some b ∧ b.phase = phase) (ended : phase.ended = true) :
    ∃ b, s.batches o = some b ∧ b.phase = phase := by
  refine moves_keeps (fun x => ∃ b, x.batches o = some b ∧ b.phase = phase) ?_ known moves
  rintro x act y ⟨b, known, same⟩ taken
  obtain ⟨b', known', phase'⟩ := ended_step taken known (same ▸ ended)
  exact ⟨b', known', phase'.trans same⟩

/-- A due tick starts the batch that its process then waits for. -/
theorem timer_claims {n : Nat} {owner : Uuid} {plan : Plan} {reply : Reply}
    (taken : f.step (.timer n owner plan reply) = some f') :
    (∃ p, f'.processes n = some p ∧ p.batch = some owner) ∧
      ∃ relay, f.system.step (.claim owner relay plan reply) = some f'.system := by
  obtain ⟨p, _, taken⟩ := Option.bind_eq_some_iff.mp taken
  split at taken
  · cases taken
  · obtain ⟨s, claimed, rfl⟩ := Option.map_eq_some_iff.mp taken
    exact ⟨⟨_, Function.update_self _ _ _, rfl⟩, p.service.relay, claimed⟩

theorem claim_known {s' : System} {relay : OutboxPublisher} {plan : Plan} {reply : Reply}
    (taken : s.step (.claim o relay plan reply) = some s') : ∃ b, s'.batches o = some b := by
  obtain ⟨_, ⟨_, rfl⟩ | ⟨_, _, _, _, _, ⟨_, rfl⟩ | ⟨_, _, rfl⟩⟩⟩ :=
    claim_cases taken <;>
    exact ⟨_, if_pos rfl⟩

/-- A process that dies takes its batch with it. -/
theorem kill_ends {n : Nat} {p : Process} (taken : f.step (.kill n) = some f')
    (found : f.processes n = some p) (drawn : p.batch = some o)
    (known : f'.system.batches o = some b) (before : ∃ b, f.system.batches o = some b) :
    b.phase.ended = true := by
  obtain ⟨p', alive, rfl⟩ := Option.map_eq_some_iff.mp taken
  cases (running_found alive).1.symm.trans found
  obtain ⟨b₀, known₀⟩ := before
  change ((p.batch.bind f.system.crash).getD f.system).batches o = some b at known
  cases ended : b₀.phase.ended with
  | true =>
    have still : f.system.crash o = none := by simp [System.crash, known₀, ended]
    simp only [drawn, Option.bind_some, still, Option.getD_none] at known
    cases known₀.symm.trans known
    exact ended
  | false =>
    have crashed : f.system.crash o =
        some (f.system.withBatch o { b₀ with phase := .crashed }) := by
      simp [System.crash, known₀, ended]
    simp only [drawn, Option.bind_some, crashed, Option.getD_some, withBatch_batches, if_true,
      Option.some.injEq] at known
    subst known
    rfl

theorem staffed_step (staffed : f.Staffed) (taken : f.step a = some f') : f'.Staffed := by
  have moves := fleet_moves taken
  refine ⟨?_, ?_, ?_⟩
  · intro n p' found o drawn
    rcases fleet_process taken found with ⟨p, before, moved⟩ | ⟨_, _, _, _, fresh, _⟩
    · cases moved with
      | kept => exact moves_known moves (staffed.known n p' before o drawn)
      | signalled => exact moves_known moves (staffed.known n p before o drawn)
      | claimed =>
        cases drawn
        obtain ⟨_, relay, claimed⟩ := timer_claims taken
        exact claim_known claimed
      | returned => cases drawn
      | stopped _ idle => cases idle.symm.trans drawn
      | killed => exact moves_known moves (staffed.known n p before o drawn)
    · rw [fresh] at drawn
      cases drawn
  · intro o b' known'
    cases before : f.system.batches o with
    | none =>
      obtain ⟨n, _, plan, reply, rfl, _⟩ := moves_new_batch moves before known'
      obtain ⟨⟨p, found, drawn⟩, _⟩ := timer_claims taken
      exact .inr ⟨n, p, found, drawn⟩
    | some b =>
      rcases staffed.batches o b before with ⟨result, phase⟩ | ⟨n, p, found, drawn⟩
      · obtain ⟨b₁, known₁, same⟩ := moves_ended moves ⟨b, before, phase⟩ rfl
        cases known₁.symm.trans known'
        exact .inl ⟨result, same⟩
      · obtain ⟨p', found', moved⟩ := fleet_process_stays taken found
        cases moved with
        | kept => exact .inr ⟨n, p, found', drawn⟩
        | signalled => exact .inr ⟨n, _, found', drawn⟩
        | claimed _ idle => cases idle.symm.trans drawn
        | @returned _ b₀ result drawn' known phase =>
          cases drawn.symm.trans drawn'
          obtain ⟨b₁, known₁, same⟩ := moves_ended moves ⟨b₀, known, phase⟩ rfl
          cases known₁.symm.trans known'
          exact .inl ⟨result, same⟩
        | stopped _ idle => cases idle.symm.trans drawn
        | killed => exact .inr ⟨n, _, found', drawn⟩
  · intro n p' found gone o b' drawn known'
    have stays {p : Process} (before : f.processes n = some p) (dead : p.gone = true)
        (drawn : p.batch = some o) : b'.phase.ended = true := by
      obtain ⟨b, known⟩ := staffed.known n p before o drawn
      have ended := staffed.gone n p before dead o b drawn known
      obtain ⟨b₁, known₁, same⟩ := moves_ended moves ⟨b, known, rfl⟩ ended
      cases known₁.symm.trans known'
      exact same ▸ ended
    rcases fleet_process taken found with ⟨p, before, moved⟩ | ⟨_, _, _, _, fresh, _⟩
    · cases moved with
      | kept => exact stays before gone drawn
      | signalled => exact stays before gone drawn
      | claimed _ _ alive => cases alive.symm.trans gone
      | returned => cases drawn
      | stopped _ idle => cases idle.symm.trans drawn
      | killed =>
        exact kill_ends taken before drawn known' (staffed.known n p before o drawn)
    · rw [fresh] at drawn
      cases drawn

/- Who may still hold a lease that runs. -/
structure Fleet.DrainsCleanly (f : Fleet) : Prop where
  staffed : ∀ row ∈ f.system.table, ∀ o e, row.lease = some (o, e) → f.system.now < e →
    ∃ n p, f.processes n = some p ∧ p.batch = some o ∧
      (p.gone = true → ∃ b, f.system.batches o = some b ∧ b.phase = .crashed)
  free : (∀ n p, f.processes n = some p → p.batch = none) →
    ∀ row ∈ f.system.table, row.leaseFree f.system.now = true

/-- A lease that runs belongs to the batch some process is in, or died in. Once no process
is in a batch every row is free, without waiting for the claim TTL. -/
theorem shutdown_leaves_no_lease (reached : Reaches Fleet.step (fun f a => f.orderly a = true)
    (.initial now deployed) f) : f.DrainsCleanly := by
  have kept : Orderly f.system ∧ f.Staffed := by
    apply reached.invariant (fun f => Orderly f.system ∧ f.Staffed)
    · exact ⟨orderly_initial now, staffed_initial now deployed⟩
    · intro f a f' before quiet taken
      exact ⟨orderly_moves before.1 quiet (fleet_moves taken), staffed_step before.2 taken⟩
  obtain ⟨sound, staffed⟩ := kept
  have busy : ∀ row ∈ f.system.table, ∀ o e, row.lease = some (o, e) → f.system.now < e →
      ∃ n p, f.processes n = some p ∧ p.batch = some o ∧
        (p.gone = true → ∃ b, f.system.batches o = some b ∧ b.phase = .crashed) := by
    intro row inside o e leased live
    obtain ⟨b, known⟩ := sound.tracked.drawn row inside o (lease_eq_some.mp leased).1
    have unreturned (result : Except MessagingError Nat) : b.phase ≠ .done result := by
      intro returned
      have lapsed := (sound.lapsing o).lapsed known returned inside leased
      exact absurd lapsed (Int.not_le.mpr live)
    rcases staffed.batches o b known with ⟨result, returned⟩ | ⟨n, p, found, drawn⟩
    · exact absurd returned (unreturned result)
    · refine ⟨n, p, found, drawn, ?_⟩
      intro dead
      have ended := staffed.gone n p found dead o b drawn known
      refine ⟨b, known, ?_⟩
      cases phase : b.phase with
      | crashed => rfl
      | done result => exact absurd phase (unreturned result)
      | _ => simp [phase, Phase.ended] at ended
  refine ⟨busy, ?_⟩
  intro idle row inside
  apply (leaseFree_iff (sound.paired row inside)).mpr
  intro o e leased
  by_contra live
  obtain ⟨n, p, found, drawn, _⟩ := busy row inside o e leased (Int.not_le.mp live)
  cases (idle n p found).symm.trans drawn

end Shutdown

namespace Sample

/- The signal comes during a publish that takes as long as the lease. -/
def shutdownRun : List FleetAction :=
  [.boot 0 env answers, .work (.enqueue order1 0), .work (.enqueue order2 0), .tick 1,
    .timer 0 1 plan .ok, .work (.database 1 .ok 0), .work (.publish 1), .signal 0,
    .tick 300000000, .arrive (message order1), .work (.answer 1 (.ok ())),
      .work (.database 1 .ok 0),
    .work (.database 1 .ok 0), .returned 0, .stop 0]

end Sample

section Sample

attribute [local instance] Sample.external

open Sample

theorem shutdown_leaves_no_lease_lapsed : ∃ f,
    run (guarded Fleet.step Fleet.orderly) (.initial 0 none) shutdownRun = some f ∧
      f.DrainsCleanly := by
  have runs : (run (guarded Fleet.step Fleet.orderly) (.initial 0 none) shutdownRun).isSome =
      true := by decide +kernel
  obtain ⟨f, taken⟩ := Option.isSome_iff_exists.mp runs
  exact ⟨f, taken, shutdown_leaves_no_lease (reaches_of_guarded taken)⟩

end Sample

end FiduciaMessaging
