import FiduciaMessaging.Compat.Workers

/-! Compat batches are serializable, up to the rows they skip. The rows a batch has locked stay
as they were until it ends, so at that moment it has done what it would have done with the
table to itself. -/
namespace FiduciaMessaging

open Runs

section Machine

variable [External]

/- The same table and the same batches, one after another: each claims and commits on its own,
at the time its transaction began. Its plan may skip any rows, as `SKIP LOCKED` skips what other
transactions had locked. -/
structure CompatHistory where
  table : CompatTable
  ended : List CompatEnded

inductive CompatTurn : CompatHistory → CompatHistory → Prop where
  | enqueued {table after : CompatTable} {ended : List CompatEnded} {now : Timestamp}
      {subject : String} {messageId tenantId : Uuid}
      {encoded : Except CompatEnvelopeError (List UInt8)} :
      CompatOutbox.enqueue table now subject messageId tenantId encoded = .ok after →
      CompatTurn ⟨table, ended⟩ ⟨after, ended⟩
  | returned {P : Type} {publisher : CompatOutboxPublisher} {table : CompatTable} {now : Timestamp}
      {plan : Plan} {fails : Nat → Option String} {broker : CompatBroker P} {p : P}
      {batch : CompatReturn P} (ended : List CompatEnded) :
      publisher.publishBatch table (.alone publisher table now plan fails) broker p = batch →
      CompatTurn ⟨table, ended⟩
        ⟨batch.table, ended ++ [⟨some batch.result, batch.result.isOk, batch.log⟩]⟩
  -- the answer to the commit was lost
  | unheard {P : Type} {publisher : CompatOutboxPublisher} {table : CompatTable} {now : Timestamp}
      {plan : Plan} {fails : Nat → Option String} {broker : CompatBroker P} {p : P}
      {batch : CompatReturn P} (ended : List CompatEnded) (error : CompatOutboxError) :
      publisher.publishBatch table (.alone publisher table now plan fails) broker p = batch →
      batch.result.isOk = true →
      CompatTurn ⟨table, ended⟩
        ⟨batch.table, ended ++ [⟨some (.error error), true, batch.log⟩]⟩
  -- a crash cuts a batch short, after any of its publishes, and nothing is committed
  | crashed {P : Type} {publisher : CompatOutboxPublisher} {table : CompatTable} {now : Timestamp}
      {plan : Plan} {fails : Nat → Option String} {broker : CompatBroker P} {p : P}
      {batch : CompatReturn P} {log : List Handed} (ended : List CompatEnded) :
      publisher.publishBatch table (.alone publisher table now plan fails) broker p = batch →
      log <+: batch.log →
      CompatTurn ⟨table, ended⟩ ⟨table, ended ++ [⟨none, false, log⟩]⟩

def CompatSystem.history (s : CompatSystem) : CompatHistory := ⟨s.table, s.ended⟩

end Machine

section Turns

variable [External] {P : Type} {publisher : CompatOutboxPublisher} {table after : CompatTable}
  {session session' : CompatSession} {row : CompatRow} {s s' : CompatSystem} {a : CompatAction}
  {worker : Nat} {claimed : CompatClaimedRow} {verdict : CompatVerdict}
  {rest : List CompatClaimedRow} {published : Nat}

omit [External] in
/-- An update by a call that has not written the row. -/
theorem execute_unwritten {env : Surroundings publisher table} {call : CompatCall P}
    (inside : row ∈ table.rows) (fresh : ∀ w ∈ call.writes, w.messageId ≠ row.messageId)
    (f : CompatRow → CompatRow) : env.execute call row.messageId f =
      match env.fails call.calls with
      | some error => .error (.database error)
      | none =>
        if row.attempts + 1 > i32Max then .error (.database "integer out of range")
        else .ok { call with calls := call.calls + 1, writes := f row :: call.writes } := by
  cases fails : env.fails call.calls with
  | none => simp [Surroundings.execute, fails, current_unwritten inside fresh]
  | some error => simp [Surroundings.execute, fails]

/-- The update that a session is about to make: in its own table and in any other that has
the rows it locked. -/
theorem CompatSession.Sound.settling (sound : session.Sound table)
    (stage : session.stage = .settling claimed verdict rest published) :
    ∃ row ∈ session.locked, session.current table claimed.messageId = some row ∧
      (∀ table' : CompatTable, (∀ r ∈ session.locked, r ∈ table'.rows) →
        ∀ (env : Surroundings session.publisher table') (answers : List (Except String Unit))
          (log : List Handed) (f : CompatRow → CompatRow),
        env.execute ⟨2 + session.writes.length, session.writes, answers, log⟩
          claimed.messageId f =
          match env.fails (2 + session.writes.length) with
          | some error => .error (.database error)
          | none =>
            if row.attempts + 1 > i32Max then .error (.database "integer out of range")
            else .ok ⟨2 + session.writes.length + 1, f row :: session.writes, answers, log⟩) ∧
      (row.attempts + 1 ≤ i32Max → CompatSession.Sound { session with
        stage := verdict.next rest published
        writes := verdict.update session.startedAt row :: session.writes } table) := by
  have rows : session.stage.rows = claimed :: rest := by rw [stage]; rfl
  obtain ⟨done, row, later, skipped, whole, rfl, tail, wrote, fresh⟩ := sound.head rows
  have mine : row ∈ session.locked := by simp [whole]
  have executes : ∀ table' : CompatTable, (∀ r ∈ session.locked, r ∈ table'.rows) →
      ∀ (env : Surroundings session.publisher table') (answers : List (Except String Unit))
        (log : List Handed) (f : CompatRow → CompatRow),
      env.execute ⟨2 + session.writes.length, session.writes, answers, log⟩ row.messageId f =
        match env.fails (2 + session.writes.length) with
        | some error => .error (.database error)
        | none =>
          if row.attempts + 1 > i32Max then .error (.database "integer out of range")
          else .ok ⟨2 + session.writes.length + 1, f row :: session.writes, answers, log⟩ :=
    fun table' inside env answers log f => execute_unwritten (inside row mine) fresh f
  refine ⟨row, mine, ?_, executes, ?_⟩
  · let call : CompatCall Unit := ⟨0, session.writes, (), session.log⟩
    exact current_unwritten (sound.inside row mine) (show ∀ w ∈ call.writes, _ from fresh)
  · intro small
    refine ⟨by simp [CompatVerdict.next], sound.claimed, fun _ => sound.limited (by simp [stage]),
      sound.inside, ?_, sound.logged, ?_⟩
    · cases verdict with
      | refused error =>
        refine ⟨done ++ [row], [], later ++ skipped, by simp [whole], rfl, ?_⟩
        simp [wrote, CompatVerdict.update_id]
      | _ =>
        refine ⟨done ++ [row], later, skipped, by simp [whole], tail, ?_⟩
        simp [wrote, CompatVerdict.update_id]
    · intro _ table' inside env now clear answers
      have ready := clear (2 + session.writes.length) (by simp)
      refine (sound.follows (by simp [stage]) table' inside env now
        (fun n less => clear n (by simp; omega)) answers).trans ?_
      simp only [stage, CompatStage.resume, CompatVerdict.next]
      have updated := executes table' inside env answers session.log (verdict.update env.now ·)
      have within : ¬ row.attempts + 1 > i32Max := not_lt.mpr small
      simp only [ready, if_neg within] at updated
      rw [show row.claimed.messageId = row.messageId from rfl, updated, now]
      rfl

/-- A session's batch, made on its own at the end of the transaction. -/
theorem CompatSession.Sound.alone (sound : session.Sound table) (away : session.stage ≠ .begun)
    (fails : Nat → Option String) (clear : ∀ n < 2 + session.writes.length, fails n = none)
    {env : Surroundings session.publisher table}
    (same : env = .alone session.publisher table session.startedAt (.only session.locked) fails) :
    session.publisher.publishBatch table env replay session.answers =
      match session.stage.resume env ⟨2 + session.writes.length, session.writes, [],
        session.log⟩ with
      | (.error error, call) => env.rollback call error
      | (.ok published, call) =>
        match fails call.calls with
        | some error => env.rollback call (.database error)
        | none => ⟨.ok published, table.install call.writes, call.broker, call.log⟩ := by
  obtain ⟨before, plan, claimed⟩ := sound.claimed
  have again := compatClaim_again claimed sound.inside
  have path := sound.follows away table sound.inside env (same ▸ rfl) (same ▸ clear) []
  rw [List.append_nil] at path
  have first : env.fails 0 = none := same ▸ clear 0 (by omega)
  have second : env.fails 1 = none := same ▸ clear 1 (by omega)
  have rows : compatClaim table env.now session.publisher.batchSize env.plan = session.locked :=
    same ▸ again
  have limit : ¬ session.publisher.batchSize < 0 := not_lt.mpr (sound.limited away)
  have others : env.fails = fails := same ▸ rfl
  have committed : env.committed = table := same ▸ rfl
  unfold CompatOutboxPublisher.publishBatch
  simp only [first, second, if_neg limit, rows, path, others, committed]
  generalize session.stage.resume env _ = outcome
  obtain ⟨error | n, call⟩ := outcome
  · rfl
  · cases fails call.calls <;> rfl

def failing (k : Nat) (error : String) (n : Nat) : Option String :=
  if n = k then some error else none

omit [External] in
theorem failing_before {k n : Nat} {error : String} (less : n < k) : failing k error n = none :=
  if_neg (Nat.ne_of_lt less)

omit [External] in
theorem failing_at (k : Nat) (error : String) : failing k error k = some error := if_pos rfl

/-- A batch whose transaction never began. -/
theorem turn_unbegun (table : CompatTable) (ended : List CompatEnded) (error : String) :
    CompatTurn ⟨table, ended⟩
      ⟨table, ended ++ [⟨some (.error (.database error)), false, []⟩]⟩ := by
  have batch : CompatOutboxPublisher.new.publishBatch table
      (.alone .new table 0 (.only []) (failing 0 error)) (fun p _ => (p, .ok ())) () =
      ⟨.error (.database error), table, (), []⟩ := rfl
  exact .returned ended batch

/-- A batch whose claim fails. -/
theorem turn_unclaimed (sound : session.Sound table) (begun : session.stage = .begun)
    (ended : List CompatEnded) {error : String} (fails : Nat → Option String)
    (first : fails 0 = none) (second : fails 1 = some error ∨
      fails 1 = none ∧ session.publisher.batchSize < 0 ∧ error = "LIMIT must not be negative") :
    CompatTurn ⟨table, ended⟩
      ⟨table, ended ++ [⟨some (.error (.database error)), false, session.log⟩]⟩ := by
  have log := (sound.begun begun).2.2
  have batch : session.publisher.publishBatch table
      (.alone session.publisher table 0 (.only []) fails) (fun p _ => (p, .ok ())) () =
      ⟨.error (.database error), table, (), []⟩ := by
    unfold CompatOutboxPublisher.publishBatch Surroundings.alone
    rcases second with failed | ⟨ready, negative, rfl⟩
    · simp only [first, failed]
      rfl
    · simp only [first, ready, if_pos negative]
      rfl
  rw [log]
  exact .returned ended batch

/-- A batch that its update of a row ends. -/
theorem turn_unsettled (sound : session.Sound table)
    (stage : session.stage = .settling claimed verdict rest published) (ended : List CompatEnded)
    {error : String} (fails : Nat → Option String)
    (clear : ∀ n < 2 + session.writes.length, fails n = none)
    (failed : ∀ row, session.current table claimed.messageId = some row →
      fails (2 + session.writes.length) = some error ∨
      fails (2 + session.writes.length) = none ∧ row.attempts + 1 > i32Max ∧
        error = "integer out of range") :
    CompatTurn ⟨table, ended⟩
      ⟨table, ended ++ [⟨some (.error (.database error)), false, session.log⟩]⟩ := by
  obtain ⟨row, mine, current, executes, _⟩ := sound.settling stage
  have batch := sound.alone (by simp [stage]) fails clear rfl
  have outcome := executes table sound.inside
    (.alone session.publisher table session.startedAt (.only session.locked) fails) [] session.log
    (verdict.update session.startedAt ·)
  have stopped :
      (Surroundings.alone session.publisher table session.startedAt (.only session.locked)
      fails).execute ⟨2 + session.writes.length, session.writes, ([] : List (Except String Unit)),
        session.log⟩ claimed.messageId (verdict.update session.startedAt ·) =
      .error (.database error) := by
    rw [outcome]
    rcases failed row current with now | ⟨ready, large, rfl⟩
    · simp only [Surroundings.alone, now]
    · simp only [Surroundings.alone, ready, if_pos large]
  simp only [stage, CompatStage.resume] at batch
  have now : (Surroundings.alone session.publisher table session.startedAt (.only session.locked)
    fails).now = session.startedAt := rfl
  rw [now, stopped] at batch
  exact .returned ended batch

/-- A batch that comes to its commit. -/
theorem turn_commit (sound : session.Sound table) (stage : session.stage = .loop [] published)
    (ended : List CompatEnded) :
    CompatTurn ⟨table, ended⟩
      ⟨table.install session.writes,
        ended ++ [⟨some (.ok published), true, session.log⟩]⟩ ∧
    ∀ error, CompatTurn ⟨table, ended⟩
        ⟨table, ended ++ [⟨some (.error (.database error)), false, session.log⟩]⟩ ∧
      CompatTurn ⟨table, ended⟩ ⟨table.install session.writes,
        ended ++ [⟨some (.error (.database error)), true, session.log⟩]⟩ := by
  have done := sound.alone (by simp [stage]) (fun _ => none) (fun _ _ => rfl) rfl
  simp only [stage, CompatStage.resume, Surroundings.publishRows] at done
  refine ⟨.returned ended done, ?_⟩
  intro error
  refine ⟨?_, .unheard ended _ done rfl⟩
  have failed := sound.alone (by simp [stage]) (failing (2 + session.writes.length) error)
    (fun _ less => failing_before less) rfl
  simp only [stage, CompatStage.resume, Surroundings.publishRows, failing_at] at failed
  exact .returned ended failed

/-- A call only adds to its log. -/
theorem publishRows_extends {env : Surroundings publisher table} {broker : CompatBroker P}
    (rows : List CompatClaimedRow) (published : Nat) (call : CompatCall P) :
    call.log <+: (env.publishRows broker rows published call).2.log := by
  induction rows generalizing published call with
  | nil => exact List.prefix_rfl
  | cons row rest ih =>
    have sent : call.log <+: (call.publish broker row).log := List.prefix_append _ _
    unfold Surroundings.publishRows
    split
    · split
      · exact List.prefix_rfl
      · rename_i next done
        exact execute_log done ▸ ih published next
    · split
      · split
        · exact sent
        · rename_i next done
          exact sent.trans (execute_log done ▸ ih (published + 1) next)
      · split
        · exact sent
        · rename_i next done
          exact sent.trans (execute_log done ▸ List.prefix_rfl)

theorem resume_extends {env : Surroundings publisher table} (stage : CompatStage)
    (call : CompatCall (List (Except String Unit))) :
    call.log <+: (stage.resume env call).2.log := by
  cases stage with
  | begun => exact List.prefix_rfl
  | loop rest published => exact publishRows_extends rest published call
  | settling row verdict rest published =>
    simp only [CompatStage.resume]
    split
    · exact List.prefix_rfl
    · rename_i next done
      exact execute_log done ▸ publishRows_extends _ _ next

/-- Made on its own and left to go on, a batch that crashed hands over what it did, and then
more. -/
theorem turn_crash (sound : session.Sound table) (ended : List CompatEnded) :
    CompatTurn ⟨table, ended⟩ ⟨table, ended ++ [⟨none, false, session.log⟩]⟩ := by
  by_cases begun : session.stage = .begun
  · have batch : session.publisher.publishBatch table
        (.alone session.publisher table 0 (.only []) (failing 0 "closed"))
        (fun p _ => (p, .ok ())) () =
        ⟨.error (.database "closed"), table, (), []⟩ := rfl
    rw [(sound.begun begun).2.2]
    exact .crashed ended batch List.prefix_rfl
  · have batch := sound.alone begun (fun _ => none) (fun _ _ => rfl) rfl
    refine .crashed ended batch ?_
    have more : session.log <+: (session.stage.resume
        (.alone session.publisher table session.startedAt (.only session.locked) (fun _ => none))
        ⟨2 + session.writes.length, session.writes, [], session.log⟩).2.log :=
      resume_extends session.stage ⟨2 + session.writes.length, session.writes, [], session.log⟩
    revert more
    generalize session.stage.resume _ _ = outcome
    obtain ⟨error | n, call⟩ := outcome
    · exact id
    · exact id

end Turns
section Serial

variable [External] {table after : CompatTable} {session session' : CompatSession}
  {row : CompatRow} {s s' : CompatSystem} {a : CompatAction} {worker : Nat} {plan : Plan}

/- The lock table lists what the open sessions locked, and each session is sound. -/
structure CompatSystem.Sound (s : CompatSystem) : Prop where
  held : ∀ id w, s.locks id = some w ↔
    ∃ session, s.sessions w = some session ∧ ∃ row ∈ session.locked, row.messageId = id
  sessions : ∀ w session, s.sessions w = some session → session.Sound s.table

/- One step, seen on the table and on the batches that are over. -/
def CompatSystem.Turns (s s' : CompatSystem) : Prop :=
  s'.Sound ∧ (s'.history = s.history ∨ CompatTurn s.history s'.history)

theorem compat_sound_initial (now : Timestamp) : (CompatSystem.initial now).Sound where
  held := by simp [CompatSystem.initial]
  sessions := by simp [CompatSystem.initial]

/-- A session that goes on with the rows it has locked. -/
theorem turns_resume (sound : s.Sound) (known : s.sessions worker = some session)
    (before : session.locked = session'.locked) (next : session'.Sound s.table) :
    s.Turns (s.resume worker session') where
  left := by
    constructor
    · intro id w
      change s.locks id = some w ↔ _
      rw [sound.held]
      by_cases same : w = worker
      · subst same
        simp [CompatSystem.resume, known, before]
      · simp [CompatSystem.resume, Function.update_of_ne same]
    · intro w other here
      by_cases same : w = worker
      · subst same
        simp only [CompatSystem.resume, Function.update_self, Option.some.injEq] at here
        exact here ▸ next
      · simp only [CompatSystem.resume, Function.update_of_ne same] at here
        exact sound.sessions w other here
  right := .inl rfl

theorem turns_start (sound : s.Sound) (free : s.sessions worker = none)
    (publisher : CompatOutboxPublisher) : s.Turns (s.resume worker (.start publisher s.now)) where
  left := by
    constructor
    · intro id w
      change s.locks id = some w ↔ _
      rw [sound.held]
      by_cases same : w = worker
      · subst same
        simp [CompatSystem.resume, free, CompatSession.start]
      · simp [CompatSystem.resume, Function.update_of_ne same]
    · intro w other here
      by_cases same : w = worker
      · subst same
        simp only [CompatSystem.resume, Function.update_self, Option.some.injEq] at here
        exact here ▸ sound_start publisher s.now s.table
      · simp only [CompatSystem.resume, Function.update_of_ne same] at here
        exact sound.sessions w other here
  right := .inl rfl

/-- A claim locks rows that no session has locked. -/
theorem turns_claim (sound : s.Sound) (known : s.sessions worker = some session)
    (begun : session.stage = .begun) {rows : List CompatRow}
    (next : (session.claimed rows).Sound s.table)
    (free : ∀ row ∈ rows, s.locks row.messageId = none) :
    s.Turns ((s.lock worker rows).resume worker (session.claimed rows)) where
  left := by
    have nothing := ((sound.sessions worker session known).begun begun).1
    constructor
    · intro id w
      by_cases mine : ∃ row ∈ rows, row.messageId = id
      · have taken : rows.any (fun row => row.messageId == id) = true := by simpa using mine
        have unlocked : s.locks id = none := by
          obtain ⟨row, picked, rfl⟩ := mine
          exact free row picked
        simp only [CompatSystem.resume, CompatSystem.lock, if_pos taken, Option.some.injEq]
        by_cases same : w = worker
        · subst same
          simpa [CompatSession.claimed] using mine
        · simp only [Function.update_of_ne same, Ne.symm same, false_iff]
          intro elsewhere
          rw [(sound.held id w).mpr elsewhere] at unlocked
          cases unlocked
      · have spared : ¬ rows.any (fun row => row.messageId == id) = true := by simpa using mine
        simp only [CompatSystem.resume, CompatSystem.lock, if_neg spared]
        rw [sound.held]
        by_cases same : w = worker
        · subst same
          simp only [known, Function.update_self, Option.some.injEq, exists_eq_left',
            CompatSession.claimed, nothing]
          simpa using mine
        · simp [Function.update_of_ne same]
    · intro w other here
      by_cases same : w = worker
      · subst same
        simp only [CompatSystem.resume, Function.update_self, Option.some.injEq] at here
        exact here ▸ next
      · simp only [CompatSystem.resume, Function.update_of_ne same] at here
        exact sound.sessions w other here
  right := .inl rfl

/-- A commit leaves the rows that other sessions have locked. -/
theorem close_keeps (sound : s.Sound) (known : s.sessions worker = some session) {w : Nat}
    {other : CompatSession} (here : s.sessions w = some other) (apart : w ≠ worker)
    (mine : row ∈ other.locked) : row ∈ (s.table.install session.writes).rows := by
  have owner := sound.sessions worker session known
  refine mem_install.mpr ⟨row, (sound.sessions w other here).inside row mine,
    written_of_absent ?_⟩
  intro write wrote same
  obtain ⟨done, rest, skipped, whole, _, names⟩ := owner.place
  have listed := List.mem_map_of_mem (f := fun row : CompatRow => row.messageId) wrote
  rw [names, List.mem_reverse] at listed
  obtain ⟨locked, inside, id⟩ := List.mem_map.mp listed
  have first := (sound.held row.messageId worker).mpr
    ⟨session, known, locked, by simp [whole, inside], id.trans same⟩
  have second := (sound.held row.messageId w).mpr ⟨other, here, row, mine, rfl⟩
  exact apart (Option.some.inj (second.symm.trans first))

theorem turns_close (sound : s.Sound) (known : s.sessions worker = some session)
    (result : Option (Except CompatOutboxError Nat)) (committed : Bool)
    (turn : CompatTurn s.history (s.close worker session result committed).history) :
    s.Turns (s.close worker session result committed) where
  left := by
    constructor
    · intro id w
      simp only [CompatSystem.close]
      by_cases same : w = worker
      · subst same
        simp
      · rw [Function.update_of_ne same, ← sound.held]
        split
        · rename_i mine
          simp [mine, Ne.symm same]
        · rfl
    · intro w other here
      by_cases same : w = worker
      · subst same
        simp [CompatSystem.close] at here
      · simp only [CompatSystem.close, Function.update_of_ne same] at here ⊢
        have before := sound.sessions w other here
        cases committed with
        | false => exact before
        | true => exact before.mono (fun row mine _ => close_keeps sound known here same mine)
  right := .inr turn

/-- Whatever ends or moves on: each step is one turn of the batches made on their own, or none. -/
theorem compat_step_turns (sound : s.Sound) (taken : s.step a = some s') : s.Turns s' := by
  cases a with
  | tick elapsed => exact Option.some.inj taken ▸ ⟨⟨sound.held, sound.sessions⟩, .inl rfl⟩
  | enqueue subject messageId tenantId encoded =>
    simp only [CompatSystem.step] at taken
    split at taken
    · rename_i after accepted
      obtain rfl := Option.some.inj taken
      obtain ⟨body, _, rows⟩ := enqueue_rows accepted
      refine ⟨⟨sound.held, ?_⟩, .inr (.enqueued accepted)⟩
      intro w session here
      exact (sound.sessions w session here).mono
        (fun row _ inside => rows ▸ List.mem_append_left _ inside)
    · exact Option.some.inj taken ▸ ⟨sound, .inl rfl⟩
  | begin_ worker publisher fails =>
    simp only [CompatSystem.step] at taken
    split at taken
    · contradiction
    · exact Option.some.inj taken ▸
        ⟨⟨sound.held, sound.sessions⟩, .inr (turn_unbegun _ _ _)⟩
    · rename_i free
      exact Option.some.inj taken ▸ turns_start sound free publisher
  | claim worker plan fails =>
    simp only [CompatSystem.step] at taken
    split at taken
    · rename_i session known
      split at taken
      · rename_i begun
        have own := sound.sessions worker session known
        obtain rfl := Option.some.inj taken
        unfold CompatSystem.claim
        split
        · rename_i error
          exact turns_close sound known _ _
            (turn_unclaimed own begun _ (failing 1 error) rfl (.inl rfl))
        · split
          · rename_i negative
            exact turns_close sound known _ _
              (turn_unclaimed own begun _ (fun _ => none) rfl (.inr ⟨rfl, negative, rfl⟩))
          · rename_i positive
            refine turns_claim sound known begun (own.start begun positive) ?_
            intro row picked
            have free := (mem_compatClaim picked).2.2
            simp only [CompatSystem.skips, Bool.or_eq_false_iff, Option.isSome_eq_false_iff,
              Option.isNone_iff_eq_none] at free
            exact free.2
      · contradiction
    · contradiction
  | publish worker answer =>
    simp only [CompatSystem.step] at taken
    split at taken
    · rename_i session known
      split at taken
      · rename_i row rest published stage
        have own := sound.sessions worker session known
        have locked : session.locked = (session.publish row rest published answer).locked := by
          unfold CompatSession.publish
          split <;> rfl
        exact Option.some.inj taken ▸ turns_resume sound known locked (own.publish stage answer)
      · contradiction
    · contradiction
  | update worker fails =>
    simp only [CompatSystem.step] at taken
    split at taken
    · rename_i session known
      split at taken
      · rename_i row verdict rest published stage
        have own := sound.sessions worker session known
        obtain ⟨r, _, current, _, next⟩ := own.settling stage
        obtain rfl := Option.some.inj taken
        unfold CompatSystem.update
        split
        · rename_i error
          exact turns_close sound known _ _ (turn_unsettled own stage _
            (failing (2 + session.writes.length) error) (fun _ less => failing_before less)
            (fun _ _ => .inl (failing_at _ _)))
        · rw [current]
          simp only
          split
          · rename_i large
            refine turns_close sound known _ _ (turn_unsettled own stage _ (fun _ => none)
              (fun _ _ => rfl) ?_)
            intro other found
            obtain rfl := Option.some.inj (found.symm.trans current)
            exact .inr ⟨rfl, large, rfl⟩
          · rename_i small
            exact turns_resume sound known rfl (next (not_lt.mp small))
      · contradiction
    · contradiction
  | commit worker reply =>
    simp only [CompatSystem.step] at taken
    split at taken
    · rename_i session known
      split at taken
      · rename_i published stage
        have turn := turn_commit (sound.sessions worker session known) stage s.ended
        obtain rfl := Option.some.inj taken
        cases reply with
        | ok => exact turns_close sound known _ _ turn.1
        | failed error => exact turns_close sound known _ _ (turn.2 error).1
        | lost error => exact turns_close sound known _ _ (turn.2 error).2
      · contradiction
    · contradiction
  | crash worker =>
    simp only [CompatSystem.step] at taken
    split at taken
    · rename_i session known
      exact Option.some.inj taken ▸
        turns_close sound known _ _ (turn_crash (sound.sessions worker session known) _)
    · contradiction

theorem compat_sound_of_reaches {now : Timestamp}
    (reached : Reaches CompatSystem.step (fun _ _ => True) (.initial now) s) : s.Sound :=
  reached.invariant CompatSystem.Sound (compat_sound_initial now)
    (fun _ _ _ sound _ taken => (compat_step_turns sound taken).1)

theorem turns_of_reaches {now : Timestamp}
    (reached : Reaches CompatSystem.step (fun _ _ => True) (.initial now) s) :
    Relation.ReflTransGen CompatTurn ⟨⟨[], List.nodup_nil⟩, []⟩ s.history := by
  induction reached with
  | refl => exact .refl
  | tail path _ taken ih =>
    rcases (compat_step_turns (compat_sound_of_reaches path) taken).2 with same | turn
    · exact same ▸ ih
    · exact ih.tail turn

/-- Batches of any workers, interleaved at each statement and each publish, change the table
and end as batches made one after another, each of which skips some rows; and what an open one
has locked is committed, unpublished and locked by no other. -/
theorem compat_batches_serialize {now : Timestamp}
    (reached : Reaches CompatSystem.step (fun _ _ => True) (.initial now) s) :
    Relation.ReflTransGen CompatTurn ⟨⟨[], List.nodup_nil⟩, []⟩ s.history ∧
      ∀ w session, s.sessions w = some session → ∀ row ∈ session.locked,
        row ∈ s.table.rows ∧ row.publishedAt = none ∧
        ∀ v other, s.sessions v = some other →
          (∃ r ∈ other.locked, r.messageId = row.messageId) → v = w := by
  refine ⟨turns_of_reaches reached, ?_⟩
  intro w session known row mine
  have sound := compat_sound_of_reaches reached
  have own := sound.sessions w session known
  refine ⟨own.inside row mine, (due_iff.mp (own.due mine)).1, ?_⟩
  intro v other here shared
  have first := (sound.held row.messageId v).mpr ⟨other, here, shared⟩
  have second := (sound.held row.messageId w).mpr ⟨session, known, row, mine, rfl⟩
  exact Option.some.inj (first.symm.trans second)

end Serial
section Sample

attribute [local instance] hexReader

/- Two workers with one row each; the second commits while the first waits for its publish. -/
def overlappingRun : List CompatAction :=
  [.enqueue "orders.created" 1 9 (.ok [1]), .enqueue "orders.paid" 2 9 (.ok [2]),
    .begin_ 7 ⟨1⟩ none, .begin_ 8 ⟨1⟩ none, .claim 7 ⟨fun _ => false, fun _ => 0⟩ none,
    .claim 8 ⟨fun _ => false, fun _ => 0⟩ none, .publish 7 (.error "timed out"),
    .publish 8 (.ok ()), .update 8 none, .commit 8 .ok]

theorem compat_batches_serialize_overlapping : ∃ s : CompatSystem,
    run CompatSystem.step (.initial 0) overlappingRun = some s ∧
    s.table.rows.map (fun row => (row.attempts, row.publishedAt)) = [(0, none), (1, some 0)] ∧
    (s.sessions 7).map (fun session => session.locked.map (·.messageId)) = some [1] ∧
    Relation.ReflTransGen CompatTurn ⟨⟨[], List.nodup_nil⟩, []⟩ s.history := by
  refine ⟨_, rfl, by decide +kernel, by decide +kernel, ?_⟩
  have taken : run CompatSystem.step (.initial 0) overlappingRun = some _ := rfl
  exact (compat_batches_serialize
    (reaches_of_run (fun _ _ => True) _ taken (fun _ _ _ => trivial))).1

end Sample

end FiduciaMessaging
