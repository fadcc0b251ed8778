import FiduciaMessaging.Outbox.DeadLetter

/-! How much work the outbox can make. With one worker whose leases live, every batch that
claims a row hands one over, and a row is handed over as often as its limit allows; so the
batches are bounded by the rows, and an idle worker leaves nothing leased. -/
namespace FiduciaMessaging

open Runs

/- A batch that has not handed over the first of its rows. -/
def Batch.untouched (b : Batch) : Bool :=
  match b.phase with
  | .row _ rest _ => rest.length + 1 == b.leased.length
  | .offer _ _ rest _ => rest.length + 1 == b.leased.length
  | _ => false

def Solo.untouched (x : Solo) : Bool :=
  x.current.any (fun o => (x.system.batches o).any Batch.untouched)

/- A claim that returned rows. -/
def productive (_ : Solo) (a : Action) (y : Solo) : Nat :=
  match a with
  | .claim owner _ _ _ => if (y.system.batches owner).any (fun b => !b.leased.isEmpty) then 1 else 0
  | _ => 0

def System.handOvers (s : System) : Nat :=
  ((s.table.map (·.id)).flatMap (offers s.trace)).length

def System.waiting (s : System) : Nat := s.table.countP (fun row => row.status == .pending)

/- The worker's runs in which every probe finds its lease alive. -/
def liveStep [External] (m : Int) (x : Solo) (a : Action) : Option Solo :=
  guarded (soloStep m) (fun x a => leaseLive x.system a) x a

variable {s s' : System} {a : Action} {row row' : OutboxRow} {owner : Uuid} {batch : Batch}
  {m : Int} {x y : Solo}

theorem solo_untouched : x.untouched = true ↔ ∃ o b, x.current = some o ∧
    x.system.batches o = some b ∧ b.untouched = true := by
  simp [Solo.untouched, Option.any_eq_true]

theorem untouched_active (untouched : batch.untouched = true) : batch.phase.ended = false := by
  cases phase : batch.phase <;> simp_all [Batch.untouched, Phase.ended]

theorem flatMap_append_indicator (ids : List Uuid) (f : Uuid → List Uuid) (owner id : Uuid) :
    (ids.flatMap (fun i => f i ++ if id = i then [owner] else [])).length =
      (ids.flatMap f).length + ids.count id := by
  induction ids with
  | nil => rfl
  | cons i rest ih =>
    simp only [List.flatMap_cons, List.length_append, List.count_cons, ih]
    by_cases same : id = i
    · simp [same]
      omega
    · simp [same, Ne.symm same]
      omega

/-- Each row is handed over within the limit, and a row still pending once less. -/
theorem handOvers_bounded (rows : List OutboxRow) (trace : List Event) (bounded : ∀ row ∈ rows,
    ((offers trace row.id).length : Int) + (if row.status = .pending then 1 else 0) ≤ m) :
    ((((rows.map (·.id)).flatMap (offers trace)).length +
      rows.countP (fun row => row.status == .pending) : Nat) : Int) ≤ m * rows.length := by
  induction rows with
  | nil => simp
  | cons row rest ih =>
    have first := bounded row List.mem_cons_self
    have others := ih (fun r later => bounded r (List.mem_cons_of_mem _ later))
    have size : m * ((row :: rest).length : Int) = m * rest.length + m := by simp [Int.mul_add]
    rw [size, List.map_cons, List.flatMap_cons, List.length_append, List.countP_cons]
    simp only [beq_iff_eq] at others ⊢
    split at first
    · rename_i pending
      rw [if_pos pending]
      omega
    · rename_i other
      rw [if_neg other]
      omega

structure Tidy [External] (m : Int) (x : Solo) : Prop where
  steady : Steady m x
  accounts : Accounts x.system
  limited : Limited m x.system
  paired : PairedTable x.system
  finished : ∀ o b, x.system.batches o = some b → b.phase.ended = true →
    ∀ row ∈ x.system.table, row.claimOwner ≠ some o

section Step

variable [External]

theorem live_cases (taken : liveStep m x a = some y) :
    leaseLive x.system a = true ∧ soloStep m x a = some y := by
  unfold liveStep guarded at taken
  split at taken
  · rename_i live
    exact ⟨live, taken⟩
  · contradiction

theorem tidy_initial (now : Timestamp) : Tidy m (.initial now) where
  steady := steady_initial now
  accounts := accounts_initial now
  limited := limited_initial now
  paired := paired_initial now
  finished := by
    intro o b known
    cases known

/-- An idle worker owns nothing. -/
theorem Tidy.unowned (tidy : Tidy m x) (idle : x.idle = true) (inside : row ∈ x.system.table) :
    row.claimOwner = none := by
  cases owned : row.claimOwner with
  | none => rfl
  | some o =>
    obtain ⟨b, known⟩ := tidy.steady.tracked.drawn row inside o owned
    exact absurd owned (tidy.finished o b known (tidy.steady.none_active idle known) row inside)

theorem solo_retrying (tidy : Tidy m x) (allowed : soloAllows m x a = true) :
    retrying m a = true ∧ withinLimit m x.system a = true := by
  cases a with
  | claim owner relay plan reply =>
    obtain ⟨idle, limit, rfl⟩ := solo_relay allowed
    refine ⟨by simp [retrying, limit, Reply.isOk], ?_⟩
    refine List.all_eq_true.mpr (fun row picked => ?_)
    simp [tidy.unowned idle (mem_claimCandidates picked).1]
  | enqueue record startedAt =>
    simp only [soloAllows, Bool.and_eq_true, beq_iff_eq] at allowed
    exact ⟨by simp [retrying, allowed.1], rfl⟩
  | database owner reply at_ => exact ⟨allowed, rfl⟩
  | purge olderThan => cases allowed
  | _ => exact ⟨rfl, rfl⟩

/-- The call that ends a batch leaves it no row: what was handed over is settled, and what
was not is released. -/
theorem finished_step (tidy : Tidy m x) (live : leaseLive x.system a = true)
    (taken : soloStep m x a = some y) : ∀ o b, y.system.batches o = some b →
      b.phase.ended = true → ∀ row ∈ y.system.table, row.claimOwner ≠ some o := by
  obtain ⟨allowed, step, _⟩ := solo_cases taken
  intro o b' known' ended row member owned
  have later := steady_step tidy.steady live taken
  -- a row still owned has been handed over, for nothing is ahead of a batch that ended
  have offered : o ∈ offers y.system.trace row.id := by
    rcases later.owned row member o owned with offered | ⟨b, known, ahead⟩
    · exact offered
    · obtain rfl := Option.some.inj (known.symm.trans known')
      cases phase : b.phase <;> simp_all [Phase.ended, Phase.toOffer, Phase.closing]
  cases known : x.system.batches o with
  | none =>
    obtain ⟨relay, plan, reply, rfl, _⟩ := step_new_batch step known known'
    rw [offers_unpublished step (fun _ => by simp)] at offered
    obtain ⟨b, known0⟩ := tidy.steady.ledger.known _ o offered
    cases known.symm.trans known0
  | some b =>
    have inside := owned_origin tidy.steady.tracked.apart step known member owned
    cases active : b.phase.ended with
    | true => exact tidy.finished o b known active row inside owned
    | false =>
      obtain ⟨_, _, ⟨_, rfl⟩ | moved⟩ := step_batch step known known'
      · rw [active] at ended
        cases ended
      · -- the record just marked is no longer owned, and no other was uncertain
        have settled {r : OutboxRecord} (uncertain : b.phase.uncertain = some r)
            (disowned : ∀ row' ∈ y.system.table, row'.id = r.id → row'.claimOwner ≠ some o)
            (silent : ∀ p, a ≠ .publish p) : False := by
          rw [offers_unpublished step silent] at offered
          refine tidy.accounts.resolved o b known active row.id offered ?_ row inside rfl owned
          intro r' same
          obtain rfl := Option.some.inj (uncertain.symm.trans same)
          exact fun here => disowned row member here.symm owned
        generalize b'.phase = phase at moved ended
        cases moved with
        | call c at_ called' called table =>
          subst called'
          cases call_calls called with
          | unprepared phase bad => exact tidy.steady.prepared known phase _ bad
          | held => cases ended
          | lapsed phase _ lost =>
            have held := leaseLive_spec live known phase
            rw [lost] at held
            cases held
          | marked phase =>
            refine settled (by rw [phase]; rfl) (fun row' inside' same => ?_) (by simp)
            exact markPublished_disowns (table ▸ inside') same
          | markedLate phase =>
            refine settled (by rw [phase]; rfl) (fun row' inside' same => ?_) (by simp)
            exact markPublished_disowns (table ▸ inside') same
          | recorded => cases ended
          | released =>
            rw [table] at member
            exact releaseOutboxClaims_disowns
              (fun r inside => tidy.steady.ledger.waiting r inside _) member owned
          | unwound phase => exact tidy.steady.calm o b known _ _ phase
        | error c reply at_ e called failed =>
          subst called
          exact failed (solo_database allowed)
        | crash called =>
          subst called
          cases allowed
        | _ => cases ended

theorem tidy_step (positive : 1 ≤ m) (tidy : Tidy m x) (taken : liveStep m x a = some y) :
    Tidy m y := by
  obtain ⟨live, moved⟩ := live_cases taken
  obtain ⟨allowed, step, _⟩ := solo_cases moved
  obtain ⟨healthy, within⟩ := solo_retrying tidy allowed
  exact ⟨steady_step tidy.steady live moved,
    accounts_step tidy.accounts (tidy.limited.fair healthy) step,
    limited_step positive tidy.steady.tracked tidy.steady.ledger tidy.limited healthy within step,
    paired_step tidy.steady.tracked tidy.paired step, finished_step tidy live moved⟩

/- The rows keep their ids and gain hand-overs one at a time. -/

theorem table_ids (taken : s.step a = some s') (keeps : a.purges = false) :
    s'.table.map (·.id) = s.table.map (·.id) ∨
      ∃ record startedAt, a = .enqueue record startedAt ∧
        s'.table.map (·.id) = s.table.map (·.id) ++ [record.id] := by
  have same {after : List OutboxRow}
      (staged : after.map OutboxRow.toStaged = s.table.map OutboxRow.toStaged) :
      after.map (·.id) = s.table.map (·.id) := by
    have ids := congrArg (List.map Staged.id) staged
    simpa [List.map_map, Function.comp_def] using ids
  have shape := step_table taken
  generalize s'.table = after at shape
  cases shape with
  | same => exact .inl rfl
  | inserted record startedAt => exact .inr ⟨record, startedAt, rfl, by simp [OutboxRecord.row]⟩
  | claimed fresh positive spec => exact .inl (same spec.staged)
  | called known effective called => exact .inl (same (call_staged called))
  | purged => cases keeps

theorem handOvers_step (tidy : Tidy m x) (taken : soloStep m x a = some y) :
    x.system.handOvers ≤ y.system.handOvers ∧
      ∀ o, a = .publish o → x.system.handOvers + 1 ≤ y.system.handOvers := by
  obtain ⟨allowed, step, _⟩ := solo_cases taken
  have keeps := solo_keeps allowed
  rcases step_offers step with same | ⟨o, b, bytes, r, rest, n, rfl, known, phase, grown⟩
  · have unpublished : ∀ o, a ≠ .publish o := by
      rintro o rfl
      obtain ⟨b, bytes, r, rest, n, _, _, after⟩ := publish_cases step
      have here := congrArg List.length (same r.id)
      rw [after] at here
      simp [offers_append, offers_single] at here
    refine ⟨?_, fun o called => absurd called (unpublished o)⟩
    rcases table_ids step keeps with ids | ⟨_, _, _, ids⟩
    · simp [System.handOvers, ids, funext same]
    · simp [System.handOvers, ids, funext same]
  · have held : r ∈ b.phase.held := by simp [phase, Phase.held]
    obtain ⟨row, inside, staged⟩ := tidy.steady.carried.held o b known r held
    have mine : r.id ∈ x.system.table.map (·.id) :=
      List.mem_map.mpr ⟨row, inside, congrArg Staged.id staged⟩
    have counted := List.count_pos_iff.mpr mine
    have ids := (table_ids step keeps).resolve_right (by simp)
    have total : y.system.handOvers = x.system.handOvers +
        (x.system.table.map (·.id)).count r.id := by
      simp only [System.handOvers, ids, funext grown]
      exact flatMap_append_indicator _ _ o r.id
    exact ⟨by omega, fun _ _ => by omega⟩

/-- A batch that has touched nothing moves on only to its first hand-over. -/
theorem untouched_step (tidy : Tidy m x) (live : leaseLive x.system a = true)
    (allowed : soloAllows m x a = true) (step : x.system.step a = some s')
    (known : x.system.batches owner = some batch) (untouched : batch.untouched = true) :
    a = .publish owner ∨ ∃ batch', s'.batches owner = some batch' ∧
      batch'.untouched = true := by
  obtain ⟨batch', known', _, leased, ⟨_, rfl⟩ | moved⟩ := step_known_batch step known
  · exact .inr ⟨_, known', untouched⟩
  · generalize target : batch'.phase = phase at moved
    cases moved with
    | call c at_ called' called =>
      subst called'
      cases call_calls called with
      | unprepared phase bad => exact absurd bad (tidy.steady.prepared known phase _)
      | held phase =>
        refine .inr ⟨batch', known', ?_⟩
        rw [Batch.untouched, phase] at untouched
        rw [Batch.untouched, target, leased]
        exact untouched
      | lapsed phase _ lost =>
        have held := leaseLive_spec live known phase
        rw [lost] at held
        cases held
      | marked phase => simp [Batch.untouched, phase] at untouched
      | markedLate phase => simp [Batch.untouched, phase] at untouched
      | recorded phase => simp [Batch.untouched, phase] at untouched
      | released phase => simp [Batch.untouched, phase] at untouched
      | unwound phase => simp [Batch.untouched, phase] at untouched
    | error c reply at_ e called failed =>
      subst called
      exact absurd (solo_database allowed) failed
    | publish _ _ _ _ called => exact .inl called
    | acknowledged r rest n _ phase => simp [Batch.untouched, phase] at untouched
    | refused r rest n e _ phase => simp [Batch.untouched, phase] at untouched
    | crash called =>
      subst called
      cases allowed

theorem Solo.idle_untouched (tidy : Tidy m x) (idle : x.idle = true) : x.untouched = false := by
  refine Bool.eq_false_iff.mpr (fun untouched => ?_)
  obtain ⟨o, b, _, known, fresh⟩ := solo_untouched.mp untouched
  have ended := tidy.steady.none_active idle known
  rw [untouched_active fresh] at ended
  cases ended

/-- What a step gains in claims it has gained, or is about to gain, in hand-overs. -/
theorem productive_step (tidy : Tidy m x) (taken : liveStep m x a = some y) :
    x.system.handOvers + x.untouched.toNat + productive x a y ≤
      y.system.handOvers + y.untouched.toNat := by
  obtain ⟨live, moved⟩ := live_cases taken
  obtain ⟨allowed, step, current⟩ := solo_cases moved
  obtain ⟨grows, publishes⟩ := handOvers_step tidy moved
  have later (silent : a.claimant = none) (unpublished : ∀ o, a ≠ .publish o) :
      x.untouched.toNat ≤ y.untouched.toNat := by
    cases untouched : x.untouched with
    | false => exact Nat.zero_le _
    | true =>
      obtain ⟨o, b, mine, known, fresh⟩ := solo_untouched.mp untouched
      obtain publish | ⟨b', known', fresh'⟩ := untouched_step tidy live allowed step known fresh
      · exact absurd publish (unpublished o)
      · have stays : y.untouched = true := by
          refine solo_untouched.mpr ⟨o, b', ?_, known', fresh'⟩
          rw [current, silent, mine]
          rfl
        rw [stays]
  cases a with
  | claim owner relay plan reply =>
    obtain ⟨idle, _, rfl⟩ := solo_relay allowed
    rw [Solo.idle_untouched tidy idle]
    rcases claim_leases step with ⟨_, e, ended⟩ | ⟨ms, records, spec, running⟩
    · simp [productive, ended]
      omega
    · cases records with
      | nil =>
        simp [productive, running]
        omega
      | cons r rest =>
        have fresh : y.untouched = true := by
          simp [Solo.untouched, current, Action.claimant, running, Batch.untouched, Phase.loop]
        simp [productive, running, fresh]
        omega
  | publish o =>
    have more := publishes o rfl
    have single := Bool.toNat_le x.untouched
    simp only [productive]
    omega
  | enqueue record startedAt =>
    have stays := later rfl (by simp)
    simp only [productive]
    omega
  | database o reply at_ =>
    have stays := later rfl (by simp)
    simp only [productive]
    omega
  | answer o result =>
    have stays := later rfl (by simp)
    simp only [productive]
    omega
  | crash o => cases allowed
  | append message =>
    have stays := later rfl (by simp)
    simp only [productive]
    omega
  | purge olderThan => cases allowed
  | tick elapsed =>
    have stays := later rfl (by simp)
    simp only [productive]
    omega

/-- Between two batches of a worker, the batches that claimed rows and the rows still to be
handed over are together at most `m` for each row ever staged; and whatever is pending is
due as soon as its backoff is over. -/
theorem drain_bounded {now : Timestamp} {as : List Action} (positive : 1 ≤ m)
    (taken : run (liveStep m) (.initial now) as = some x) (idle : x.idle = true) :
    ((accumulated (liveStep m) productive (.initial now) as + x.system.waiting : Nat) : Int) ≤
        m * x.system.table.length ∧
      ∀ row ∈ x.system.table, row.status = .pending → ∀ t, row.availableAt ≤ t →
        row.claimable t = true := by
  have reached := reaches_of_run (fun _ _ => True) as taken (fun _ _ _ => trivial)
  have tidy : Tidy m x := reached.invariant (Tidy m) (tidy_initial now)
    (fun _ _ _ before _ moved => tidy_step positive before moved)
  have claims : 0 + accumulated (liveStep m) productive (.initial now) as ≤
      x.system.handOvers + x.untouched.toNat :=
    accumulated_le (fun z => z.system.handOvers + z.untouched.toNat) (tidy_initial now)
      (fun _ _ _ before moved => tidy_step positive before moved)
      (fun _ _ _ before moved => productive_step before moved) taken
  refine ⟨?_, ?_⟩
  · have bounded : ∀ row ∈ x.system.table, ((offers x.system.trace row.id).length : Int) +
        (if row.status = .pending then 1 else 0) ≤ m := by
      intro row inside
      have offered := tidy.accounts.offers_le inside
      obtain ⟨below, strict⟩ := tidy.limited.rows row inside
      split
      · rename_i pending
        have under := strict (tidy.unowned idle inside) pending
        omega
      · omega
    have rows := handOvers_bounded x.system.table x.system.trace bounded
    rw [Solo.idle_untouched tidy idle, Bool.toNat_false] at claims
    simp only [System.waiting, System.handOvers] at claims rows ⊢
    omega
  · intro row inside pending t available
    have unowned := tidy.unowned idle inside
    have free : row.claimExpiresAt = none := by
      have paired := tidy.paired row inside
      rw [OutboxRow.Paired, unowned] at paired
      simpa using paired.symm
    exact claimable_iff.mpr ⟨pending, available, by simp [OutboxRow.leaseFree, free]⟩

end Step

section Sample

attribute [local instance] Sample.external

open Sample

/- The first batch stops at a refusal and gives its second row back; the next drains both. -/
def secondTryRun : List Action :=
  [.enqueue order1 0, .enqueue order2 0, .tick 1, .claim 1 twoAttempts plan .ok,
    .database 1 .ok 0, .publish 1, .answer 1 (.error (.transport "no responders")),
    .database 1 .ok 0, .database 1 .ok 0, .tick 1000000, .claim 2 twoAttempts plan .ok,
    .database 2 .ok 0, .publish 2, .append (message order1), .answer 2 (.ok ()),
    .database 2 .ok 0, .database 2 .ok 0, .publish 2, .append (message order2),
    .answer 2 (.ok ()), .database 2 .ok 0]

theorem drain_bounded_second_try : ∃ x, run (liveStep 2) (.initial 0) secondTryRun = some x ∧
    x.idle = true ∧ ((accumulated (liveStep 2) productive (.initial 0) secondTryRun +
      x.system.waiting : Nat) : Int) ≤ 2 * x.system.table.length := by
  have ends : (run (liveStep 2) (.initial 0) secondTryRun).map Solo.idle = some true := by
    decide +kernel
  obtain ⟨x, taken, idle⟩ := Option.map_eq_some_iff.mp ends
  exact ⟨x, taken, idle, (drain_bounded (by decide) taken idle).1⟩

end Sample

end FiduciaMessaging
