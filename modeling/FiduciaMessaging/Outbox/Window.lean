import FiduciaMessaging.Outbox.Leases

/-! The broker's duplicate window against the leases. A broker with a window
stores a publish unless it stored the id within the window; the relay recommends
one lease plus one backoff. -/
namespace FiduciaMessaging

open Runs

variable {s s' : System} {a : Action} {row : OutboxRow} {owner : Uuid} {batch : Batch}
  {claimTtl : Duration} {now : Timestamp}

/- A message with the id was stored within the window, in nanoseconds. -/
def System.recent (s : System) (window : Duration) (dedupId : String) : Bool :=
  s.log.any (fun entry => entry.message.dedupId == dedupId &&
    decide ((s.now - entry.storedAt) * 1000 ≤ (window : Int)))

/- Every lease ends within one TTL from now, and within one backoff and one TTL of
any store of the leased row's message. -/
structure Windowed (claimTtl : Duration) (s : System) : Prop where
  live : ∀ row ∈ s.table, ∀ o e, row.lease = some (o, e) →
    claimTtl.asMillis ≤ i64Max ∧ e ≤ s.now + claimTtl.asMillis * millisecond
  late : ∀ row ∈ s.table, ∀ o e, row.lease = some (o, e) → ∀ entry ∈ s.log,
    entry.message.dedupId = row.dedupId →
      (e - entry.storedAt) * 1000 ≤ (maxPublishBackoff : Int) + claimTtl.asMillis * 1000000
  once : s.log.Pairwise (fun a b => a.message.dedupId ≠ b.message.dedupId)

theorem windowed_initial (now : Timestamp) : Windowed claimTtl (.initial now) where
  live := by
    intro row member
    cases member
  late := by
    intro row member
    cases member
  once := List.Pairwise.nil

/-- One TTL and one backoff, in whole milliseconds, fit the recommended window. -/
theorem lease_fits_window (fits : claimTtl.asMillis ≤ i64Max) :
    (maxPublishBackoff : Int) + claimTtl.asMillis * 1000000 ≤
      (minDuplicateWindow claimTtl : Int) := by
  have whole : claimTtl.asMillis * 1000000 ≤ claimTtl := Nat.div_mul_le_self claimTtl 1000000
  have backoff : (maxPublishBackoff : Nat) = 300000000000 := rfl
  have longest : (Duration.max : Nat) = 18446744073709551615999999999 := rfl
  have top : i64Max = 9223372036854775807 := rfl
  have below : (maxPublishBackoff : Nat) + claimTtl.asMillis * 1000000 ≤
      minDuplicateWindow claimTtl := by
    refine le_min ?_ ?_
    · rw [Nat.add_comm]
      exact Nat.add_le_add_right whole _
    · rw [backoff, longest]
      unfold Duration at *
      omega
  clear backoff
  unfold Duration at *
  omega

/-- Under a live lease every earlier store of the row is inside the window. -/
theorem Windowed.recent (windowed : Windowed claimTtl s) (inside : row ∈ s.table) {e : Timestamp}
    (leased : row.lease = some (owner, e)) (before : s.now < e) {entry : Entry}
    (logged : entry ∈ s.log) (same : entry.message.dedupId = row.dedupId) :
    (s.now - entry.storedAt) * 1000 ≤ (minDuplicateWindow claimTtl : Int) := by
  have bound := windowed.late row inside owner e leased entry logged same
  have window := lease_fits_window (windowed.live row inside owner e leased).1
  unfold Timestamp at *
  omega

/-- The row a publish hands over is leased to its owner right now. -/
theorem handed_row (tracked : Tracked s) (known : s.batches owner = some batch)
    {bytes : List UInt8} {record : OutboxRecord} {rest : List OutboxRecord} {n : Nat}
    (phase : batch.phase = .offer bytes record rest n)
    (held : claimStillHeld s.table s.now record.id owner = true) :
    ∃ row ∈ s.table, ∃ e, row.lease = some (owner, e) ∧ s.now < e ∧
      row.dedupId = record.dedupId := by
  obtain ⟨row, member, matched⟩ := List.any_eq_true.mp held
  have owned := ownedAs_iff.mp (Bool.and_eq_true_iff.mp matched).1
  obtain ⟨e, leased, before⟩ := (claimStillHeld_iff tracked member).mp (owned.1 ▸ held)
  have inHand : record ∈ batch.phase.held := by
    rw [phase]
    exact List.mem_cons_self
  have copied := tracked.snapshot owner batch known record inHand row member owned.1 owned.2
  exact ⟨row, member, e, leased, before, congrArg Staged.dedupId copied⟩

theorem recent_of_stored (windowed : Windowed claimTtl s) (tracked : Tracked s)
    (known : s.batches owner = some batch) {bytes : List UInt8} {record : OutboxRecord}
    {rest : List OutboxRecord} {n : Nat} (phase : batch.phase = .offer bytes record rest n)
    (held : claimStillHeld s.table s.now record.id owner = true) {entry : Entry}
    (logged : entry ∈ s.log) (same : entry.message.dedupId = record.dedupId) :
    (s.now - entry.storedAt) * 1000 ≤ (minDuplicateWindow claimTtl : Int) := by
  obtain ⟨row, member, e, leased, before, dedup⟩ := handed_row tracked known phase held
  exact windowed.recent member leased before logged (same.trans dedup.symm)

section Window

variable [External]

/- Hand the row over while its lease is live; the broker decides at once. -/
def System.publishWithin (window : Duration) (s : System) (owner : Uuid) : Option System :=
  (s.batches owner).bind fun batch =>
    match batch.phase with
    | .offer bytes record _ _ =>
      if claimStillHeld s.table s.now record.id owner then
        (s.step (.publish owner)).bind fun sent =>
          if s.recent window record.dedupId then some sent
          else sent.step (.append (record.message bytes))
      else none
    | _ => none

/- Workers with one claim TTL and a broker with the recommended window. A row is
claimed the instant it becomes claimable, so the clock never passes over a claimable
row. Nothing is purged, and the broker stores only what a publish hands it. -/
def windowStep (claimTtl : Duration) (s : System) : Action → Option System
  | .claim owner relay plan reply =>
    if relay.claimTtl = claimTtl then s.step (.claim owner relay plan reply) else none
  | .publish owner => s.publishWithin (minDuplicateWindow claimTtl) owner
  | .append _ => none
  | .purge _ => none
  | .tick elapsed =>
    if elapsed = 0 ∨ s.table.all (fun row => !row.claimable (s.now + elapsed - 1)) then
      s.step (.tick elapsed)
    else none
  | a => s.step a

/- No claim takes a row that the broker stored more than `MAX_PUBLISH_BACKOFF` ago. -/
def prompt (s : System) : Action → Bool
  | .claim _ relay plan _ =>
    (claimCandidates s.table s.now relay.batchSize plan).all (fun row => s.log.all (fun entry =>
      entry.message.dedupId != row.dedupId ||
        decide ((s.now - entry.storedAt) * 1000 ≤ (maxPublishBackoff : Int))))
  | _ => true

/- The broker never stores an id twice, because no publish comes later than the
window after the store. -/
structure WindowHolds (claimTtl : Duration) (s : System) : Prop where
  once : s.log.Pairwise (fun a b => a.message.dedupId ≠ b.message.dedupId)
  gap : ∀ {owner batch bytes record rest n s'}, s.batches owner = some batch →
    batch.phase = .offer bytes record rest n →
      windowStep claimTtl s (.publish owner) = some s' →
    ∀ entry ∈ s.log, entry.message.dedupId = record.dedupId →
      (s.now - entry.storedAt) * 1000 ≤ (minDuplicateWindow claimTtl : Int)

/-- A step of the windowed system is a step of the relay machine, or a publish under a
live lease that the broker stores exactly when the id is not recent. -/
theorem window_cases (taken : windowStep claimTtl s a = some s') :
    (s.step a = some s' ∧ a.purges = false ∧ (∀ message, a ≠ .append message) ∧
      (∀ owner, a ≠ .publish owner) ∧ ∀ owner relay plan reply,
        a = .claim owner relay plan reply → relay.claimTtl = claimTtl) ∨
    ∃ owner batch bytes record rest n sent, a = .publish owner ∧
      s.batches owner = some batch ∧
      batch.phase = .offer bytes record rest n ∧
      claimStillHeld s.table s.now record.id owner = true ∧
        s.step (.publish owner) = some sent ∧
      ((s.recent (minDuplicateWindow claimTtl) record.dedupId = true ∧ s' = sent) ∨
        (s.recent (minDuplicateWindow claimTtl) record.dedupId = false ∧
          sent.step (.append (record.message bytes)) = some s')) := by
  cases a with
  | claim o relay plan reply =>
    left
    simp only [windowStep] at taken
    split at taken
    · rename_i equal
      refine ⟨taken, rfl, fun _ => nofun, fun _ => nofun, ?_⟩
      intro o' relay' plan' reply' same
      cases same
      exact equal
    · contradiction
  | publish o =>
    right
    unfold windowStep System.publishWithin at taken
    obtain ⟨b, known, taken⟩ := Option.bind_eq_some_iff.mp taken
    split at taken
    · rename_i bytes record rest n phase
      split at taken
      · rename_i live
        obtain ⟨sent, published, taken⟩ := Option.bind_eq_some_iff.mp taken
        refine ⟨o, b, bytes, record, rest, n, sent, rfl, known, phase, live, published, ?_⟩
        split at taken
        · rename_i recent
          exact .inl ⟨recent, (Option.some.inj taken).symm⟩
        · rename_i stale
          exact .inr ⟨Bool.eq_false_iff.mpr stale, taken⟩
      · contradiction
    · contradiction
  | append message => cases taken
  | purge olderThan => cases taken
  | tick elapsed =>
    left
    simp only [windowStep] at taken
    split at taken
    · exact ⟨taken, rfl, fun _ => nofun, fun _ => nofun, fun _ _ _ _ => nofun⟩
    · contradiction
  | enqueue record startedAt =>
    exact .inl ⟨taken, rfl, fun _ => nofun, fun _ => nofun, fun _ _ _ _ => nofun⟩
  | database o reply at_ =>
    exact .inl ⟨taken, rfl, fun _ => nofun, fun _ => nofun, fun _ _ _ _ => nofun⟩
  | answer o result =>
    exact .inl ⟨taken, rfl, fun _ => nofun, fun _ => nofun, fun _ _ _ _ => nofun⟩
  | crash o => exact .inl ⟨taken, rfl, fun _ => nofun, fun _ => nofun, fun _ _ _ _ => nofun⟩

/-- Every windowed run is a run of the relay machine. -/
theorem window_reaches {ok : System → Action → Prop}
    (reached : Reaches (windowStep claimTtl) ok s s') : Reaches System.step Keeps s s' := by
  induction reached with
  | refl => exact .refl
  | tail _ _ taken ih =>
    rcases window_cases taken with ⟨plain, keeps, _⟩ |
      ⟨_, _, _, _, _, _, _, _, _, _, _, published, ⟨_, rfl⟩ | ⟨_, appended⟩⟩
    · exact ih.tail keeps plain
    · exact ih.tail (show Keeps _ (.publish _) from rfl) published
    · have sent := ih.tail (show Keeps _ (.publish _) from rfl) published
      exact sent.tail (show Keeps _ (.append _) from rfl) appended

theorem windowed_plain_step (tracked : Tracked s) (windowed : Windowed claimTtl s)
    (taken : s.step a = some s') (silent : ∀ message, a ≠ .append message)
    (sameTtl : ∀ owner relay plan reply, a = .claim owner relay plan reply →
      relay.claimTtl = claimTtl) (soon : prompt s a = true) : Windowed claimTtl s' := by
  have log : s'.log = s.log := by
    rcases step_log taken with same | ⟨message, _, appended, _⟩
    · exact same
    · exact absurd appended (silent message)
  have later := now_step taken
  refine ⟨?_, ?_, log ▸ windowed.once⟩
  · intro row' member o e leased
    obtain ⟨row, inside, moved⟩ | ⟨record, startedAt, _, rfl, _⟩ :=
      row_origin tracked.apart taken member
    · cases moved with
      | kept =>
        have bound := windowed.live row' inside o e leased
        refine ⟨bound.1, ?_⟩
        unfold Timestamp at *
        omega
      | leased o' relay plan reply ms called _ positive =>
        obtain ⟨rfl, fits⟩ := positiveMs_ok positive
        rw [sameTtl _ _ _ _ called] at fits leased
        obtain ⟨_, rfl⟩ := Prod.mk.inj (Option.some.inj leased)
        refine ⟨fits, ?_⟩
        unfold Timestamp at *
        omega
      | settled o' reply at_ _ _ _ _ settles =>
        rw [settles.lease] at leased
        cases leased
    · cases leased
  · intro row' member o e leased entry logged same
    rw [log] at logged
    obtain ⟨row, inside, moved⟩ | ⟨record, startedAt, _, rfl, _⟩ :=
      row_origin tracked.apart taken member
    · cases moved with
      | kept => exact windowed.late row' inside o e leased entry logged same
      | leased o' relay plan reply ms called _ positive _ picked =>
        obtain ⟨rfl, _⟩ := positiveMs_ok positive
        rw [sameTtl _ _ _ _ called] at leased
        obtain ⟨_, rfl⟩ := Prod.mk.inj (Option.some.inj leased)
        subst called
        have recent := List.all_eq_true.mp (List.all_eq_true.mp soon row picked) entry logged
        have bound : (s.now - entry.storedAt) * 1000 ≤ (maxPublishBackoff : Int) := by
          simpa [show entry.message.dedupId = row.dedupId from same] using recent
        unfold Timestamp millisecond at *
        omega
      | settled o' reply at_ _ _ _ _ settles =>
        rw [settles.lease] at leased
        cases leased
    · cases leased

theorem publish_keeps (taken : s.step (.publish owner) = some s') :
    s'.table = s.table ∧ s'.log = s.log ∧ s'.now = s.now := by
  obtain ⟨_, _, _, _, _, _, _, rfl⟩ := publish_cases taken
  exact ⟨rfl, rfl, rfl⟩

/-- The broker stores a message that is not recent while a row with its id is leased. -/
theorem windowed_append {window : Duration} {message : PublishedMessage} {e : Timestamp}
    (windowed : Windowed claimTtl s) (covers : minDuplicateWindow claimTtl ≤ window)
    (member : row ∈ s.table) (leased : row.lease = some (owner, e)) (before : s.now < e)
    (dedup : row.dedupId = message.dedupId) (stale : s.recent window message.dedupId = false)
    (appended : s.step (.append message) = some s') : Windowed claimTtl s' := by
  obtain ⟨_, rfl⟩ := append_cases appended
  -- an entry with this id would have been recent, and nothing would be stored
  have fresh : ∀ entry ∈ s.log, entry.message.dedupId ≠ message.dedupId := by
    intro entry logged same
    have inside := windowed.recent member leased before logged (same.trans dedup.symm)
    have larger : (minDuplicateWindow claimTtl : Int) ≤ window := Int.ofNat_le.mpr covers
    have clash : s.recent window message.dedupId = true := by
      refine List.any_eq_true.mpr ⟨entry, logged, Bool.and_eq_true_iff.mpr ?_⟩
      exact ⟨beq_iff_eq.mpr same, decide_eq_true (inside.trans larger)⟩
    rw [stale] at clash
    cases clash
  refine ⟨windowed.live, ?_, ?_⟩
  · intro r inside o' e' leased' entry logged same
    change entry ∈ s.log ++ [⟨message, s.now⟩] at logged
    rcases List.mem_append.mp logged with old | new
    · exact windowed.late r inside o' e' leased' entry old same
    · obtain rfl := List.mem_singleton.mp new
      have bound := (windowed.live r inside o' e' leased').2
      have backoff : (0 : Int) ≤ maxPublishBackoff := Int.natCast_nonneg _
      change (e' - s.now) * 1000 ≤ _
      unfold Timestamp millisecond at *
      omega
  · change List.Pairwise _ (s.log ++ [(⟨message, s.now⟩ : Entry)])
    refine List.pairwise_append.mpr ⟨windowed.once, List.pairwise_singleton _ _, ?_⟩
    intro entry logged new single
    rw [List.mem_singleton.mp single]
    exact fresh entry logged

theorem windowed_step (tracked : Tracked s) (windowed : Windowed claimTtl s)
    (taken : windowStep claimTtl s a = some s') (soon : prompt s a = true) :
    Windowed claimTtl s' := by
  rcases window_cases taken with ⟨plain, _, silent, _, sameTtl⟩ |
    ⟨o, b, bytes, record, rest, n, sent, rfl, known, phase, held, published, outcome⟩
  · exact windowed_plain_step tracked windowed plain silent sameTtl soon
  · have kept : Windowed claimTtl sent :=
      windowed_plain_step tracked windowed published (by simp) (by simp) rfl
    rcases outcome with ⟨_, rfl⟩ | ⟨stale, appended⟩
    · exact kept
    · obtain ⟨row, member, e, leased, before, dedup⟩ := handed_row tracked known phase held
      obtain ⟨table, log, clock⟩ := publish_keeps published
      have old : sent.recent (minDuplicateWindow claimTtl) record.dedupId = false := by
        unfold System.recent at stale ⊢
        rw [log, clock]
        exact stale
      rw [← table] at member
      rw [← clock] at before
      exact windowed_append kept (Nat.le_refl _) member leased before dedup old appended

/-- When every claim of a stored row comes within one backoff of the store, the
recommended window suffices: no id is stored twice and no publish is later than it. -/
theorem window_sufficient (reached : Reaches (windowStep claimTtl)
    (fun x a => prompt x a = true) (.initial now) s) : WindowHolds claimTtl s := by
  have tracked (x : System) (path : Reaches (windowStep claimTtl)
      (fun x a => prompt x a = true) (.initial now) x) : Tracked x :=
    tracked_of_reaches (tracked_initial now) (window_reaches path)
  have windowed : Windowed claimTtl s := reached.invariant_given (Windowed claimTtl) tracked
    (windowed_initial now)
    (fun _ _ _ known before soon taken => windowed_step known before taken soon)
  refine ⟨windowed.once, ?_⟩
  intro owner batch bytes record rest n s' known phase taken entry logged same
  rcases window_cases taken with ⟨_, _, _, unpublished, _⟩ |
    ⟨o, b, bytes', record', rest', n', sent, called, known', phase', held, _⟩
  · exact absurd rfl (unpublished owner)
  · cases called
    obtain rfl := Option.some.inj (known.symm.trans known')
    cases phase.symm.trans phase'
    exact recent_of_stored windowed (tracked s reached) known phase held logged same

end Window

section Sample

attribute [local instance] Sample.external

open Sample

/- The row is stored at 0; two workers crash in turn, and the third reaches it one
microsecond after the window has passed. -/
def lateRun : List Action :=
  [.enqueue order1 0,
    .claim 1 .new plan .ok, .database 1 .ok 0, .publish 1, .crash 1, .tick 300000000,
    .claim 2 .new plan .ok, .database 2 .ok 0, .publish 2, .crash 2, .tick 300000000,
    .claim 3 .new plan .ok, .tick 1, .database 3 .ok 0, .publish 3]

/-- With the default TTL the broker stores the row a second time. -/
theorem window_exceeded : ∃ s, run (windowStep defaultClaimTtl) (.initial 0) lateRun = some s ∧
    ¬ WindowHolds defaultClaimTtl s := by
  have stored : (run (windowStep defaultClaimTtl) (.initial 0) lateRun).map
      (fun s => s.log.map (fun entry => entry.message.dedupId)) =
      some [order1.dedupId, order1.dedupId] := by decide +kernel
  obtain ⟨s, taken, ids⟩ := Option.map_eq_some_iff.mp stored
  refine ⟨s, taken, ?_⟩
  intro holds
  have distinct := List.pairwise_map.mpr holds.once
  rw [ids] at distinct
  simp at distinct

/- The first worker crashes after the store; the second takes over when the lease ends. -/
def promptRun : List Action :=
  [.enqueue order1 0,
    .claim 1 .new plan .ok, .database 1 .ok 0, .publish 1, .crash 1, .tick 300000000,
    .claim 2 .new plan .ok, .database 2 .ok 0, .publish 2, .answer 2 (.ok ()), .database 2 .ok 0]

theorem window_sufficient_prompt : ∃ s, run (guarded (windowStep defaultClaimTtl) prompt)
    (.initial 0) promptRun = some s ∧ WindowHolds defaultClaimTtl s := by
  have runs : (run (guarded (windowStep defaultClaimTtl) prompt) (.initial 0) promptRun).isSome =
      true := by decide +kernel
  obtain ⟨s, taken⟩ := Option.isSome_iff_exists.mp runs
  exact ⟨s, taken, window_sufficient (reaches_of_guarded taken)⟩

end Sample

end FiduciaMessaging
