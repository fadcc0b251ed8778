import FiduciaMessaging.Deploy.Fleet
import FiduciaMessaging.Outbox.Delivery

/-! What the startup check of the duplicate window is worth over a whole run. No process
runs over a stream whose window is too small; over any other, however large its window,
the broker stores each id once as long as a run is prompt. -/
namespace FiduciaMessaging

open Runs

variable {s s' : System}

section Fleet

variable [External] {f f' : Fleet} {a : FleetAction} {act : Action} {now : Timestamp}
  {deployed : Option StreamConfig}

/- A record about to be handed over has passed the check of its subject and size. -/
def Prepared (s : System) : Prop :=
  ∀ o b bytes r rest n, s.batches o = some b → b.phase = .offer bytes r rest n →
    r.prepare = .ok bytes

theorem prepared_step (prepared : Prepared s) (taken : s.step act = some s') : Prepared s' := by
  intro o b' bytes r rest n known' phase
  cases before : s.batches o with
  | none =>
    rcases step_new_phase taken before known' with ⟨result, ended⟩ | ⟨_, _, first⟩
    · cases ended.symm.trans phase
    · cases first.symm.trans phase
  | some b =>
    obtain ⟨_, _, ⟨_, rfl⟩ | moved⟩ := step_batch taken before known'
    · exact prepared o b' bytes r rest n before phase
    · exact (BatchMove.offer (phase ▸ moved)).2.1

/-- A prepared record has a subject that the filter of a created stream covers. -/
theorem prepared_matches {r : OutboxRecord} {bytes : List UInt8} (ready : r.prepare = .ok bytes) :
    natsMatches streamSubjects r.subject = true := by
  have serialized := prepare_bytes ready
  have accepted : validateForPublish r.subject bytes.length = .ok () := by
    cases checked : validateForPublish r.subject bytes.length with
    | ok _ => rfl
    | error e => simp [OutboxRecord.prepare, serialized, checked, bind, Except.bind,
        Except.mapError] at ready
  obtain ⟨subject, parsed⟩ := validateForPublish_parses accepted
  obtain ⟨same, valid, _⟩ := parse_ok.mp parsed
  rw [same]
  exact stream_matches valid

/- Some process may run over the stream that is deployed. -/
def Fleet.Verified (f : Fleet) : Prop := ∃ stream, f.stream = some stream ∧ stream.Covers

/- Whatever a process did, it did over a stream that was verified. -/
structure Fleet.Sound (f : Fleet) : Prop where
  tracked : Tracked f.system
  prepared : Prepared f.system
  covered : ∀ message ∈ f.system.sent, natsMatches streamSubjects message.subject = true
  processes : ∀ n p, f.processes n = some p →
    p.service.relay.claimTtl = defaultClaimTtl ∧ f.Verified
  publishers : ∀ n p, f.publishers n = some p → f.Verified
  batches : ∀ o b, f.system.batches o = some b → f.Verified
  sessions : ∀ n session, f.compat.sessions n = some session → f.Verified
  ended : ∀ e ∈ f.compat.ended, f.Verified
  sent : ∀ message ∈ f.system.sent, f.Verified
  arrived : ∀ message ∈ f.arrived, message ∈ f.system.sent
  stored : ∀ stream, f.stream = some stream → streamSubjects ∈ stream.subjects →
    ∀ message ∈ f.arrived, f.system.stored message.dedupId = true

/- No claim of a process takes a row that the broker stored more than a backoff ago, and what
reaches the broker does so while its row is leased. -/
def Fleet.prompt (f : Fleet) : FleetAction → Bool
  | .timer n owner plan reply =>
    match f.processes n with
    | some p => FiduciaMessaging.prompt f.system (.claim owner p.service.relay plan reply)
    | none => true
  | .arrive message => f.system.table.any (fun row =>
      row.dedupId == message.dedupId && row.lease.any (fun lease => f.system.now < lease.2))
  | _ => true

theorem verified_step (taken : f.step a = some f') (verified : f.Verified) : f'.Verified := by
  obtain ⟨stream, deployed, covers⟩ := verified
  refine ⟨stream, ?_, covers⟩
  rcases fleet_stream taken with same | ⟨config, _, same⟩
  · rw [same, deployed]
  · rw [same, deployed, Option.getD_some]

/-- A verified stream is the one there was. -/
theorem verified_stream {stream : StreamConfig} (taken : f.step a = some f')
    (verified : f.Verified) (deployed : f'.stream = some stream) : f.stream = some stream := by
  obtain ⟨old, before, _⟩ := verified
  rcases fleet_stream taken with same | ⟨config, _, same⟩
  · exact same ▸ deployed
  · rw [same, before, Option.getD_some] at deployed
    exact before.trans deployed

/-- A message that is new was handed over by a batch. -/
theorem moves_sent (moves : f.Moves a s) : s.sent = f.system.sent ∨
    ∃ o b bytes r rest n, f.system.batches o = some b ∧ b.phase = .offer bytes r rest n ∧
      s.sent = f.system.sent ++ [r.message bytes] := by
  rcases moves_step moves with rfl | ⟨act, taken, _⟩
  · exact .inl rfl
  · rcases step_sent taken with same | ⟨o, b, bytes, r, rest, n, _, known, phase, grown⟩
    · exact .inl same
    · exact .inr ⟨o, b, bytes, r, rest, n, known, phase, grown⟩

/-- A step of the compat table that belongs to no worker leaves the batches alone. -/
theorem compat_step_free {c c' : CompatSystem} {act : CompatAction} (free : act.worker = none)
    (taken : c.step act = some c') : c'.sessions = c.sessions ∧ c'.ended = c.ended := by
  cases act with
  | enqueue subject messageId tenantId encoded =>
    simp only [CompatSystem.step] at taken
    split at taken <;> cases taken <;> exact ⟨rfl, rfl⟩
  | tick elapsed =>
    cases taken
    exact ⟨rfl, rfl⟩
  | _ => cases free

/-- While no process was started over the compat table, nobody claims from it. -/
theorem compat_unmoved {c : CompatSystem} (moves : f.CompatMoves c) :
    (∃ n p, f.publishers n = some p) ∨
      c.sessions = f.compat.sessions ∧ c.ended = f.compat.ended := by
  cases moves with
  | still => exact .inr ⟨rfl, rfl⟩
  | @stepped act c started taken =>
    cases owned : act.worker with
    | none => exact .inr (compat_step_free owned taken)
    | some n => exact .inl ⟨n, started n owned⟩

theorem fleetSound_initial (now : Timestamp) (deployed : Option StreamConfig) :
    (Fleet.initial now deployed).Sound where
  tracked := tracked_initial now
  prepared := by
    intro o b bytes r rest n known
    cases known
  covered := by
    intro message member
    cases member
  processes := by
    intro n p found
    cases found
  publishers := by
    intro n p found
    cases found
  batches := by
    intro o b known
    cases known
  sessions := by
    intro n session known
    cases known
  ended := by
    intro e member
    cases member
  sent := by
    intro message member
    cases member
  arrived := by
    intro message member
    cases member
  stored := by
    intro stream _ _ message member
    cases member

/-- What arrives at a stream with the filter of a created one is in the stream from then on. -/
theorem arrived_stored (sound : f.Sound) (taken : f.step a = some f') {stream : StreamConfig}
    (deployed : f'.stream = some stream) (covers : streamSubjects ∈ stream.subjects) :
    ∀ message ∈ f'.arrived, f'.system.stored message.dedupId = true := by
  intro message member
  have kept {id : String} (stored : f.system.stored id = true) : f'.system.stored id = true :=
    moves_keeps (fun x => x.stored id = true) (fun _ _ _ before step => stored_step step before)
      stored (fleet_moves taken)
  have earlier (old : message ∈ f.arrived) : f'.system.stored message.dedupId = true := by
    have before := verified_stream taken (sound.sent message (sound.arrived message old)) deployed
    exact kept (sound.stored stream before covers message old)
  rcases fleet_arrived taken with same | ⟨new, grown, sent, outcome⟩
  · exact earlier (same ▸ member)
  · rcases List.mem_append.mp (grown ▸ member) with old | single
    · exact earlier old
    · obtain rfl := List.mem_singleton.mp single
      rcases outcome with refused | stored
      · have before := verified_stream taken (sound.sent message sent) deployed
        have matched : stream.subjects.any (fun filter => natsMatches filter message.subject) =
            true :=
          List.any_eq_true.mpr ⟨_, covers, sound.covered message sent⟩
        -- a covered subject is refused for its id only
        simp only [Fleet.accepts, before, Option.any_some, matched, Bool.true_and,
          Bool.not_eq_false'] at refused
        obtain ⟨entry, logged, same⟩ := List.any_eq_true.mp refused
        exact kept (List.any_eq_true.mpr ⟨entry, logged, (Bool.and_eq_true_iff.mp same).1⟩)
      · exact stored

theorem fleetSound_step (sound : f.Sound) (taken : f.step a = some f') : f'.Sound := by
  have moves := fleet_moves taken
  have later := verified_step taken
  have publishers : ∀ n p, f'.publishers n = some p → f'.Verified := by
    intro n p found
    rcases fleet_publisher taken found with ⟨q, before⟩ | verified
    · exact later (sound.publishers n q before)
    · exact verified
  have started (someone : ∃ n p, f.publishers n = some p) : f'.Verified := by
    obtain ⟨n, p, found⟩ := someone
    exact later (sound.publishers n p found)
  refine ⟨?_, ?_, ?_, ?_, publishers, ?_, ?_, ?_, ?_, ?_, ?_⟩
  · exact moves_keeps Tracked (fun _ _ _ before step => tracked_step before step)
      sound.tracked moves
  · exact moves_keeps Prepared (fun _ _ _ before step => prepared_step before step)
      sound.prepared moves
  · intro message member
    rcases moves_sent moves with same | ⟨o, b, bytes, r, rest, n, known, phase, grown⟩
    · exact sound.covered message (same ▸ member)
    · rcases List.mem_append.mp (grown ▸ member) with old | single
      · exact sound.covered message old
      · rw [List.mem_singleton.mp single]
        exact prepared_matches (sound.prepared o b bytes r rest n known phase)
  · intro n p' found
    rcases fleet_process taken found with ⟨p, before, moved⟩ | ⟨_, _, _, _, _, started⟩
    · obtain ⟨ttl, verified⟩ := sound.processes n p before
      exact ⟨moved.service ▸ ttl, later verified⟩
    · exact relayMain_ok started
  · intro o b known
    cases before : f.system.batches o with
    | none =>
      obtain ⟨n, p, _, _, _, found⟩ := moves_new_batch moves before known
      exact later (sound.processes n p (running_found found).1).2
    | some b' => exact later (sound.batches o b' before)
  · intro n session known
    rcases compat_unmoved (fleet_compat taken) with someone | ⟨same, _⟩
    · exact started someone
    · exact later (sound.sessions n session (same ▸ known))
  · intro e member
    rcases compat_unmoved (fleet_compat taken) with someone | ⟨_, same⟩
    · exact started someone
    · exact later (sound.ended e (same ▸ member))
  · intro message member
    rcases moves_sent moves with same | ⟨o, b, _, _, _, _, known, _⟩
    · exact later (sound.sent message (same ▸ member))
    · exact later (sound.batches o b known)
  · intro message member
    have kept (sent : message ∈ f.system.sent) : message ∈ f'.system.sent := by
      rcases moves_sent moves with same | ⟨_, _, _, _, _, _, _, _, grown⟩
      · exact same ▸ sent
      · exact grown ▸ List.mem_append_left _ sent
    rcases fleet_arrived taken with same | ⟨new, grown, sent, _⟩
    · exact kept (sound.arrived message (same ▸ member))
    · rcases List.mem_append.mp (grown ▸ member) with old | single
      · exact kept (sound.arrived message old)
      · exact kept (List.mem_singleton.mp single ▸ sent)
  · intro stream deployed covers
    exact arrived_stored sound taken deployed covers

/-- Over a verified stream the leases stay inside the window as long as a run is prompt. -/
theorem windowed_moves (sound : f.Sound) (windowed : Windowed defaultClaimTtl f.system)
    (soon : f.prompt a = true) (moves : f.Moves a s) : Windowed defaultClaimTtl s := by
  rcases moves_step moves with rfl | ⟨act, taken, claims, appends⟩
  · exact windowed
  · cases act with
    | claim owner relay plan reply =>
      obtain ⟨n, p, rfl, found, rfl⟩ := claims owner relay plan reply rfl
      have known := (running_found found).1
      refine windowed_plain_step sound.tracked windowed taken (by simp) ?_ ?_
      · rintro _ _ _ _ same
        cases same
        exact (sound.processes n p known).1
      · simpa [Fleet.prompt, known] using soon
    | append message =>
      obtain ⟨rfl, accepted⟩ := appends message rfl
      obtain ⟨row, inside, matched⟩ := List.any_eq_true.mp soon
      obtain ⟨same, live⟩ := Bool.and_eq_true_iff.mp matched
      obtain ⟨⟨o, e⟩, leased, before⟩ := (Option.any_eq_true _ _).mp live
      obtain ⟨stream, deployed, decided⟩ := (Option.any_eq_true _ _).mp accepted
      -- only over a verified stream was there a batch that sent it
      obtain ⟨stream', deployed', covers⟩ := sound.sent message (append_cases taken).1
      cases deployed.symm.trans deployed'
      have stale : f.system.recent stream.duplicateWindow message.dedupId = false := by
        simpa using (Bool.and_eq_true_iff.mp decided).2
      exact windowed_append windowed covers inside leased (of_decide_eq_true before)
        (beq_iff_eq.mp same) stale taken
    | _ => exact windowed_plain_step sound.tracked windowed taken (by simp) (by simp) rfl

/- No process runs, nothing was claimed, and nothing was handed over. -/
structure Fleet.Idle (f : Fleet) : Prop where
  processes : ∀ n, f.processes n = none
  publishers : ∀ n, f.publishers n = none
  leases : ∀ row ∈ f.system.table, row.claimOwner = none
  sent : f.system.sent = []
  sessions : ∀ n, f.compat.sessions n = none
  ended : f.compat.ended = []

/- What the check at the start is worth in every run from the empty tables and `deployed`. -/
structure Fleet.FailsClosed (deployed : Option StreamConfig) (f : Fleet) : Prop where
  kept : ∀ stream, deployed = some stream → f.stream = some stream
  created : deployed = none → ∀ stream, f.stream = some stream → stream.Requested
  refused : ∀ stream, deployed = some stream → ¬ stream.Covers → f.Idle
  stored : ∀ stream, f.stream = some stream → streamSubjects ∈ stream.subjects →
    ∀ message ∈ f.arrived, f.system.stored message.dedupId = true

/- What it is worth in a run that is prompt. -/
structure Fleet.StoresOnce (f : Fleet) : Prop where
  once : f.system.log.Pairwise (fun x y => x.message.dedupId ≠ y.message.dedupId)
  one : ∀ stream, f.stream = some stream → streamSubjects ∈ stream.subjects →
    ∀ message ∈ f.arrived, ∃! entry, entry ∈ f.system.log ∧
      entry.message.dedupId = message.dedupId

theorem stream_kept {ok : Fleet → FleetAction → Prop}
    (reached : Reaches Fleet.step ok (.initial now deployed) f) :
    (∀ stream, deployed = some stream → f.stream = some stream) ∧
      (deployed = none → ∀ stream, f.stream = some stream → stream.Requested) := by
  apply reached.invariant (fun f =>
    (∀ stream, deployed = some stream → f.stream = some stream) ∧
      (deployed = none → ∀ stream, f.stream = some stream → stream.Requested))
  · exact ⟨fun _ same => same, fun absent stream same => by cases absent.symm.trans same⟩
  · intro f a f' ⟨kept, created⟩ _ taken
    rcases fleet_stream taken with same | ⟨config, requested, same⟩
    · rw [same]
      exact ⟨kept, created⟩
    · refine ⟨fun stream given => by rw [same, kept stream given, Option.getD_some], ?_⟩
      intro absent stream found
      rw [same] at found
      cases before : f.stream with
      | none =>
        rw [before] at found
        exact Option.some.inj found ▸ requested
      | some old =>
        rw [before] at found
        exact Option.some.inj found ▸ created absent old before

theorem idle_of_unverified (sound : f.Sound) (unverified : ¬ f.Verified) : f.Idle where
  processes := by
    intro n
    by_contra running
    obtain ⟨p, found⟩ := Option.ne_none_iff_exists'.mp running
    exact unverified (sound.processes n p found).2
  publishers := by
    intro n
    by_contra running
    obtain ⟨p, found⟩ := Option.ne_none_iff_exists'.mp running
    exact unverified (sound.publishers n p found)
  leases := by
    intro row member
    by_contra leased
    obtain ⟨o, owned⟩ := Option.ne_none_iff_exists'.mp leased
    obtain ⟨b, known⟩ := sound.tracked.drawn row member o owned
    exact unverified (sound.batches o b known)
  sent := by
    apply List.eq_nil_iff_forall_not_mem.mpr
    intro message member
    exact unverified (sound.sent message member)
  sessions := by
    intro n
    by_contra claiming
    obtain ⟨session, known⟩ := Option.ne_none_iff_exists'.mp claiming
    exact unverified (sound.sessions n session known)
  ended := by
    apply List.eq_nil_iff_forall_not_mem.mpr
    intro e member
    exact unverified (sound.ended e member)

omit [External] in
/-- An id that is stored, and stored once, has one entry. -/
theorem stored_once {id : String} (stored : s.stored id = true)
    (once : s.log.Pairwise (fun x y => x.message.dedupId ≠ y.message.dedupId)) :
    ∃! entry, entry ∈ s.log ∧ entry.message.dedupId = id := by
  obtain ⟨entry, logged, same⟩ := List.any_eq_true.mp stored
  refine ⟨entry, ⟨logged, beq_iff_eq.mp same⟩, ?_⟩
  rintro other ⟨logged', same'⟩
  have distinct : (s.log.map (fun entry => entry.message.dedupId)).Nodup :=
    List.pairwise_map.mpr once
  exact List.inj_on_of_nodup_map distinct logged' logged (same'.trans (beq_iff_eq.mp same).symm)

/-- Over a stream whose window is too small no process ever runs and nothing is claimed or
handed over. Over any other, what arrives is in a created stream, and a prompt run stores each
id once. -/
theorem startup_fails_closed {ok : Fleet → FleetAction → Prop}
    (reached : Reaches Fleet.step ok (.initial now deployed) f) : f.FailsClosed deployed ∧
      ((∀ x act, ok x act → x.prompt act = true) → f.StoresOnce) := by
  have sound (x : Fleet) (path : Reaches Fleet.step ok (.initial now deployed) x) : x.Sound :=
    path.invariant Fleet.Sound (fleetSound_initial now deployed)
      (fun _ _ _ before _ taken => fleetSound_step before taken)
  have last := sound f reached
  obtain ⟨kept, created⟩ := stream_kept reached
  constructor
  · refine ⟨kept, created, ?_, last.stored⟩
    intro stream given short
    apply idle_of_unverified last
    rintro ⟨stream', deployed', covers⟩
    cases (kept stream given).symm.trans deployed'
    exact short covers
  · intro soon
    have windowed : Windowed defaultClaimTtl f.system :=
      reached.invariant_given (fun x => Windowed defaultClaimTtl x.system) sound
        (windowed_initial now)
        (fun _ _ _ known before allowed taken =>
          windowed_moves known before (soon _ _ allowed) (fleet_moves taken))
    refine ⟨windowed.once, ?_⟩
    intro stream found covers message member
    exact stored_once (last.stored stream found covers message member) windowed.once

end Fleet

namespace Sample

def env : Environment := fun name =>
  if name = "DATABASE_URL" then some "postgres://db/outbox"
  else if name = "NATS_URL" then some "nats://localhost:4222"
  else none

def answers : Answers where
  database := fun _ => .ok ()
  credentials := fun _ => .ok ()
  dial := fun _ _ => .ok ()
  stream := .ok

/- A stream with the window of two minutes that JetStream gives by default. -/
def shortStream : StreamConfig :=
  { desiredConfig defaultClaimTtl 1 defaultMaxAge with duplicateWindow := Duration.fromSecs 120 }

/- The first process dies after its publish; a second one takes the row over, and then both
publishes arrive. -/
def deployRun : List FleetAction :=
  [.boot 0 env answers, .work (.enqueue order1 0), .timer 0 1 plan .ok, .work (.database 1 .ok 0),
    .work (.publish 1), .kill 0, .tick 300000000, .boot 1 env answers, .timer 1 2 plan .ok,
    .work (.database 2 .ok 0), .work (.publish 2), .arrive (message order1),
    .arrive (message order1), .work (.answer 2 (.ok ())), .work (.database 2 .ok 0), .signal 1,
    .returned 1, .stop 1]

/- A compat process hands over its only row and dies before the commit. -/
def compatRun : List FleetAction :=
  [.compat (.enqueue "legacy.job" 7 8 (.ok [])), .bootCompat 0 env answers, .compatTimer 0 none,
    .compat (.claim 0 plan none), .compat (.publish 0 (.ok ())), .compat (.update 0 none),
    .killCompat 0]

def shutOutRun : List FleetAction :=
  [.boot 0 env answers, .bootCompat 0 env answers, .work (.enqueue order1 0)]

end Sample

section Sample

attribute [local instance] Sample.external

open Sample

theorem startup_fails_closed_deployed :
    (∃ f, run (guarded Fleet.step Fleet.prompt) (.initial 0 none)
      (deployRun ++ compatRun) = some f ∧
      f.FailsClosed none ∧ f.StoresOnce) ∧
    ∃ f, run Fleet.step (.initial 0 (some shortStream)) shutOutRun = some f ∧
      f.FailsClosed (some shortStream) := by
  have runs : (run (guarded Fleet.step Fleet.prompt) (.initial 0 none)
      (deployRun ++ compatRun)).isSome = true := by decide +kernel
  have refuses : (run Fleet.step (.initial 0 (some shortStream)) shutOutRun).isSome = true := by
    decide +kernel
  obtain ⟨f, taken⟩ := Option.isSome_iff_exists.mp runs
  obtain ⟨g, taken'⟩ := Option.isSome_iff_exists.mp refuses
  obtain ⟨closed, prompt⟩ := startup_fails_closed (reaches_of_guarded taken)
  have reached := reaches_of_run (fun _ _ => True) _ taken' (fun _ _ _ => trivial)
  exact ⟨⟨f, taken, closed, prompt (fun _ _ soon => soon)⟩, g, taken',
    (startup_fails_closed reached).1⟩

end Sample

end FiduciaMessaging
