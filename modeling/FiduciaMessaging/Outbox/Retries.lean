import FiduciaMessaging.Outbox.Attempts

/-! The retry limit over whole runs. A row that keeps failing is parked when its
attempts reach the limit; a lease left behind skips that check. -/
namespace FiduciaMessaging

open Runs

def Reply.isOk : Reply → Bool
  | .ok => true
  | _ => false

/- Workers configured with `m` whose database calls succeed, on rows staged with no attempts. -/
def retrying (m : Int) : Action → Bool
  | .enqueue record _ => record.attempts == 0
  | .claim _ relay _ reply => relay.maxAttempts == m && reply.isOk
  | .database _ reply _ => reply.isOk
  | .purge _ => false
  | _ => true

/- No claim takes over a lease, left behind by a crash or a stall, of a row whose
attempts already reached `m`. -/
def withinLimit (m : Int) (s : System) : Action → Bool
  | .claim _ relay plan _ => (claimCandidates s.table s.now relay.batchSize plan).all
      (fun row => row.claimOwner.isNone || decide (row.attempts < m))
  | _ => true

structure Limited (m : Int) (s : System) : Prop where
  rows : ∀ row ∈ s.table, row.attempts ≤ m ∧
    (row.claimOwner = none → row.status = .pending → row.attempts < m)
  relays : ∀ o b, s.batches o = some b → b.relay.maxAttempts = m
  held : ∀ o b, s.batches o = some b → ∀ r ∈ b.phase.held, saturateI32 r.attempts ≤ m
  offered : ∀ o r, Event.offered o r ∈ s.trace → saturateI32 r.attempts ≤ m
  calm : Calm s

variable {s s' : System} {a : Action} {row row' : OutboxRow} {owner : Uuid}
  {batch : Batch} {m : Int}

theorem limited_initial (now : Timestamp) : Limited m (.initial now) where
  rows := by
    intro row member
    cases member
  relays := by
    intro o b known
    cases known
  held := by
    intro o b known
    cases known
  offered := by
    intro o r member
    cases member
  calm := by
    intro o b known
    cases known

theorem retrying_database {reply : Reply} {at_ : Timestamp}
    (healthy : retrying m (.database owner reply at_) = true) : reply = .ok := by
  cases reply with
  | ok => rfl
  | failed e => cases healthy
  | lost e => cases healthy

theorem Limited.fair (limited : Limited m s) (healthy : retrying m a = true) : fair s a = true := by
  have stays : a.purges = false := by
    cases a with
    | purge olderThan => cases healthy
    | _ => rfl
  have clean : unwindsCleanly s a = true := by
    cases a with
    | database o reply at_ =>
      obtain rfl := retrying_database healthy
      simp only [unwindsCleanly]
      split
      · rename_i known _
        exact absurd rfl (limited.calm o _ known _ _)
      · contradiction
      · rfl
    | _ => rfl
  rw [FiduciaMessaging.fair, stays, clean]
  rfl

section Step

variable [External]

theorem step_offered (taken : s.step a = some s') {o : Uuid} {r : OutboxRecord}
    (member : Event.offered o r ∈ s'.trace) : Event.offered o r ∈ s.trace ∨
      ∃ b, s.batches o = some b ∧ r ∈ b.phase.held := by
  obtain ⟨events, grown, happened⟩ := step_trace taken
  rw [grown] at member
  rcases List.mem_append.mp member with old | new
  · exact .inl old
  · right
    cases happened with
    | silent => cases new
    | staged => cases List.mem_singleton.mp new
    | acknowledged => cases List.mem_singleton.mp new
    | called known called =>
      have none_ := call_offers_nothing called r.id
      have some_ : o ∈ offers _ r.id :=
        List.mem_filterMap.mpr ⟨_, new, by simp [Event.offererOf]⟩
      rw [none_] at some_
      cases some_
    | offered known phase =>
      cases List.mem_singleton.mp new
      refine ⟨_, known, ?_⟩
      rw [phase]
      exact List.mem_cons_self

theorem limited_rows (positive : 1 ≤ m) (tracked : Tracked s) (ledger : Ledger s)
    (limited : Limited m s) (healthy : retrying m a = true) (within : withinLimit m s a = true)
    (taken : s.step a = some s') (member : row' ∈ s'.table) : row'.attempts ≤ m ∧
      (row'.claimOwner = none → row'.status = .pending → row'.attempts < m) := by
  obtain ⟨row, inside, moved⟩ | ⟨record, startedAt, rfl, rfl, _⟩ :=
    row_origin tracked.apart taken member
  · obtain ⟨below, unleased⟩ := limited.rows row inside
    cases moved with
    | kept => exact ⟨below, unleased⟩
    | leased o relay plan reply ms called _ _ due picked =>
      subst called
      have strict : row.attempts < m := by
        have checked := List.all_eq_true.mp within row picked
        rcases Bool.or_eq_true_iff.mp checked with free | under
        · exact unleased (Option.isNone_iff_eq_none.mp free) (claimable_iff.mp due).1
        · exact of_decide_eq_true under
      exact ⟨Int.add_one_le_of_lt strict, fun impossible => nomatch impossible⟩
    | settled o reply at_ _ b called owned settles known effective changed =>
      cases changed with
      | unprepared => exact ⟨below, fun _ impossible => nomatch impossible⟩
      | published => exact ⟨below, fun _ impossible => nomatch impossible⟩
      | exhausted => exact ⟨below, fun _ impossible => nomatch impossible⟩
      | rescheduled phase left_ same =>
        have held := ledger.within o b known _ (by rw [phase]; exact List.mem_cons_self)
        rw [← (ledger.counted o b known _ held).2 row inside same owned,
          limited.relays o b known] at left_
        exact ⟨below, fun _ _ => left_⟩
      | released =>
        have under : max (row.attempts - 1) 0 < m := by omega
        exact ⟨le_of_lt under, fun _ _ => under⟩
  · have zero : record.attempts = 0 := by simpa [retrying] using healthy
    have none_ : (record.row startedAt).attempts = 0 := by
      simp [OutboxRecord.row, zero, saturateI32, i32Max]
    rw [none_]
    exact ⟨by omega, fun _ _ => by omega⟩

theorem limited_step (positive : 1 ≤ m) (tracked : Tracked s) (ledger : Ledger s)
    (limited : Limited m s) (healthy : retrying m a = true) (within : withinLimit m s a = true)
    (taken : s.step a = some s') : Limited m s' where
  rows := fun row member => limited_rows positive tracked ledger limited healthy within taken member
  relays := by
    refine relays_step taken (fun relay => relay.maxAttempts = m) limited.relays ?_
    rintro o relay plan reply rfl
    simp only [retrying, Bool.and_eq_true, beq_iff_eq] at healthy
    exact healthy.1
  held := by
    intro o b' known' r held
    cases known : s.batches o with
    | none =>
      obtain ⟨_, _, _, _, _, ⟨e, ended, _⟩ | ⟨_, _, _, spec, start⟩⟩ :=
        step_new_batch taken known known'
      · rw [ended] at held
        cases held
      · have toOffer : r ∈ b'.phase.toOffer := by
          rw [start, loop_toOffer]
          rwa [start, loop_held] at held
        obtain ⟨row, inside, same, owned⟩ := new_toOffer tracked taken known known' toOffer
        have later := ledger_step tracked ledger taken
        have leased := later.within o b' known' r held
        rw [← (later.counted o b' known' r leased).2 row inside same owned]
        exact (limited_rows positive tracked ledger limited healthy within taken inside).1
    | some b =>
      obtain ⟨_, _, ⟨_, rfl⟩ | moved⟩ := step_batch taken known known'
      · exact limited.held o _ known r held
      · exact limited.held o b known r (moved.held.subset held)
  offered := by
    intro o r member
    rcases step_offered taken member with old | ⟨b, known, held⟩
    · exact limited.offered o r old
    · exact limited.held o b known r held
  calm := by
    refine calm_step taken limited.calm ?_
    rintro o reply at_ rfl
    exact retrying_database healthy

/-- As long as no lease of an exhausted row is taken over, a row is handed over at most
`m` times, and never under a claim that found its attempts at `m` already. -/
theorem retries_bounded {now : Timestamp} (positive : 1 ≤ m) (reached : Reaches System.step
    (fun x a => (retrying m a && withinLimit m x a) = true) (.initial now) s) :
    (∀ id, ((offers s.trace id).length : Int) ≤ m) ∧
      ∀ o r, Event.offered o r ∈ s.trace → saturateI32 r.attempts - 1 < m := by
  have both : Accounts s ∧ Limited m s := by
    refine reached.invariant (fun x => Accounts x ∧ Limited m x)
      ⟨accounts_initial now, limited_initial now⟩ ?_
    rintro x a y ⟨accounts, limited⟩ allowed taken
    obtain ⟨healthy, within⟩ := Bool.and_eq_true_iff.mp allowed
    exact ⟨accounts_step accounts (limited.fair healthy) taken,
      limited_step positive accounts.tracked accounts.ledger limited healthy within taken⟩
  obtain ⟨accounts, limited⟩ := both
  refine ⟨?_, ?_⟩
  · intro id
    cases seen : offers s.trace id with
    | nil => exact le_trans (by simp) positive
    | cons o rest =>
      obtain ⟨row, inside, rfl⟩ := accounts.present id o (seen ▸ List.mem_cons_self)
      rw [← seen]
      exact le_trans (accounts.offers_le inside) (limited.rows row inside).1
  · intro o r member
    have bound := limited.offered o r member
    omega

end Step

section Sample

attribute [local instance] Sample.external

open Sample

def oneAttempt : OutboxPublisher := OutboxPublisher.new.withMaxAttempts 1

/- With a limit of one, the only worker that tries crashes, and the next one tries again. -/
def crashedRun : List Action :=
  [.enqueue order1 0, .claim 1 oneAttempt plan .ok, .database 1 .ok 0, .publish 1, .crash 1,
    .tick 300000000, .claim 2 oneAttempt plan .ok, .database 2 .ok 0, .publish 2]

theorem retries_exceeded : ∃ s, run (guarded System.step (fun _ a => retrying 1 a)) (.initial 0)
    crashedRun = some s ∧ ¬ ∀ id, ((offers s.trace id).length : Int) ≤ 1 := by
  have counts : (run (guarded System.step (fun _ a => retrying 1 a)) (.initial 0) crashedRun).map
      (fun s => (offers s.trace 1).length) = some 2 := by decide +kernel
  obtain ⟨s, taken, twice⟩ := Option.map_eq_some_iff.mp counts
  refine ⟨s, taken, fun holds => ?_⟩
  have bound := holds 1
  omega

/- With the same limit, a refused publish parks the row. -/
def parkedRun : List Action :=
  [.enqueue order1 0, .claim 1 oneAttempt plan .ok, .database 1 .ok 0, .publish 1,
    .answer 1 (.error (.transport "no responders")), .database 1 .ok 0, .database 1 .ok 0]

theorem retries_bounded_parked : ∃ s, run (guarded System.step
    (fun x a => retrying 1 a && withinLimit 1 x a)) (.initial 0) parkedRun = some s ∧
      ∀ id, ((offers s.trace id).length : Int) ≤ 1 := by
  have runs : (run (guarded System.step (fun x a => retrying 1 a && withinLimit 1 x a)) (.initial 0)
      parkedRun).isSome = true := by decide +kernel
  obtain ⟨s, taken⟩ := Option.isSome_iff_exists.mp runs
  exact ⟨s, taken, (retries_bounded (by decide) (reaches_of_guarded taken)).1⟩

end Sample

end FiduciaMessaging
