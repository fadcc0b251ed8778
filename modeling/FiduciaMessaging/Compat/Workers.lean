import FiduciaMessaging.Compat.Batch
import FiduciaMessaging.Outbox.Relay
import FiduciaMessaging.Foundations.Runs

/-! Any number of compat publishers at work on one table. Each batch is a transaction that
keeps its rows locked while the others claim, publish and commit around it. To the table
and to the broker they do what batches one after another would have done, each of which
skips some rows. -/
namespace FiduciaMessaging

open Runs

/- What becomes of one claimed row. -/
inductive CompatVerdict where
  | invalid (error : CompatOutboxError)
  | published
  | refused (error : String)

def CompatVerdict.update (now : Timestamp) (row : CompatRow) : CompatVerdict → CompatRow
  | .invalid error => row.reschedule now error.toString
  | .published => row.markPublished now
  | .refused error => row.reschedule now error

/- Where the loop over the claimed rows is: at its head, or before the update of a row. -/
inductive CompatStage where
  | begun
  | loop (rest : List CompatClaimedRow) (published : Nat)
  | settling (row : CompatClaimedRow) (verdict : CompatVerdict) (rest : List CompatClaimedRow)
      (published : Nat)

/- A refused row ends the loop. -/
def CompatVerdict.rest (rest : List CompatClaimedRow) : CompatVerdict → List CompatClaimedRow
  | .refused _ => []
  | _ => rest

def CompatVerdict.count (published : Nat) : CompatVerdict → Nat
  | .published => published + 1
  | _ => published

def CompatVerdict.next (rest : List CompatClaimedRow) (published : Nat) (verdict : CompatVerdict) :
    CompatStage :=
  .loop (verdict.rest rest) (verdict.count published)

/- An open transaction: the rows it locked, the versions it wrote, newest first, and what it
handed to the broker. -/
structure CompatSession where
  publisher : CompatOutboxPublisher
  startedAt : Timestamp
  locked : List CompatRow
  stage : CompatStage
  writes : List CompatRow
  log : List Handed

/- A batch that is over. One that crashed returned nothing. -/
structure CompatEnded where
  result : Option (Except CompatOutboxError Nat)
  committed : Bool
  log : List Handed

structure CompatSystem where
  now : Timestamp
  table : CompatTable
  locks : Uuid → Option Nat
  sessions : Nat → Option CompatSession
  ended : List CompatEnded

inductive CompatAction where
  | enqueue (subject : String) (messageId tenantId : Uuid)
      (encoded : Except CompatEnvelopeError (List UInt8))
  | begin_ (worker : Nat) (publisher : CompatOutboxPublisher) (fails : Option String)
  | claim (worker : Nat) (plan : Plan) (fails : Option String)
  | publish (worker : Nat) (answer : Except String Unit)
  | update (worker : Nat) (fails : Option String)
  | commit (worker : Nat) (reply : Reply)
  | crash (worker : Nat)
  | tick (elapsed : Nat)

def CompatSystem.initial (now : Timestamp) : CompatSystem where
  now := now
  table := ⟨[], List.nodup_nil⟩
  locks := fun _ => none
  sessions := fun _ => none
  ended := []

def CompatSession.start (publisher : CompatOutboxPublisher) (now : Timestamp) : CompatSession :=
  ⟨publisher, now, [], .begun, [], []⟩

/- The row as the transaction sees it. -/
def CompatSession.current (session : CompatSession) (table : CompatTable) (id : Uuid) :
    Option CompatRow :=
  (session.writes ++ table.rows).find? (fun row => row.messageId == id)

def CompatSession.claimed (session : CompatSession) (rows : List CompatRow) : CompatSession :=
  { session with locked := rows, stage := .loop (rows.map CompatRow.claimed) 0 }

def CompatSystem.resume (s : CompatSystem) (worker : Nat) (session : CompatSession) :
    CompatSystem :=
  { s with sessions := Function.update s.sessions worker (some session) }

def CompatSystem.lock (s : CompatSystem) (worker : Nat) (rows : List CompatRow) : CompatSystem :=
  { s with
    locks := fun id =>
      if rows.any (fun row => row.messageId == id) then some worker else s.locks id }

/- The end of a transaction drops its locks. -/
def CompatSystem.close (s : CompatSystem) (worker : Nat) (session : CompatSession)
    (result : Option (Except CompatOutboxError Nat)) (committed : Bool) : CompatSystem :=
  { s with
    table := if committed then s.table.install session.writes else s.table
    locks := fun id => if s.locks id = some worker then none else s.locks id
    sessions := Function.update s.sessions worker none
    ended := s.ended ++ [⟨result, committed, session.log⟩] }

def CompatSystem.rollback (s : CompatSystem) (worker : Nat) (session : CompatSession)
    (error : String) : CompatSystem :=
  s.close worker session (some (.error (.database error))) false

section Machine

variable [External]

/- The head of the loop. Only a row that passes the guard is handed over. -/
def CompatSession.publish (session : CompatSession) (row : CompatClaimedRow)
    (rest : List CompatClaimedRow) (published : Nat) (answer : Except String Unit) :
    CompatSession :=
  match validateCompatPublish row.subject row.envelope.length with
  | .error error => { session with stage := .settling row (.invalid error) rest published }
  | .ok () =>
    { session with
      log := session.log ++ [⟨row.messageId, row.message, answer⟩]
      stage := match answer with
        | .ok () => .settling row .published rest published
        | .error error => .settling row (.refused error) rest published }

/- A row the claim has to skip is locked by another transaction, one of ours or any other. -/
def CompatSystem.skips (s : CompatSystem) (plan : Plan) : Plan :=
  { plan with locked := fun id => plan.locked id || (s.locks id).isSome }

def CompatSystem.claim (s : CompatSystem) (worker : Nat) (session : CompatSession) (plan : Plan) :
    Option String → CompatSystem
  | some error => s.rollback worker session error
  | none =>
    if session.publisher.batchSize < 0 then
      s.rollback worker session "LIMIT must not be negative"
    else
      let rows := compatClaim s.table session.startedAt session.publisher.batchSize (s.skips plan)
      (s.lock worker rows).resume worker (session.claimed rows)

def CompatSystem.update (s : CompatSystem) (worker : Nat) (session : CompatSession)
    (row : CompatClaimedRow) (verdict : CompatVerdict) (rest : List CompatClaimedRow)
    (published : Nat) : Option String → CompatSystem
  | some error => s.rollback worker session error
  | none =>
    match session.current s.table row.messageId with
    | none => s.resume worker { session with stage := verdict.next rest published }
    | some r =>
      if r.attempts + 1 > i32Max then s.rollback worker session "integer out of range"
      else s.resume worker { session with
        stage := verdict.next rest published
        writes := verdict.update session.startedAt r :: session.writes }

def CompatSystem.commit (s : CompatSystem) (worker : Nat) (session : CompatSession)
    (published : Nat) : Reply → CompatSystem
  | .ok => s.close worker session (some (.ok published)) true
  | .failed error => s.rollback worker session error
  | .lost error => s.close worker session (some (.error (.database error))) true

def CompatSystem.step (s : CompatSystem) : CompatAction → Option CompatSystem
  | .enqueue subject messageId tenantId encoded =>
    match CompatOutbox.enqueue s.table s.now subject messageId tenantId encoded with
    | .ok table => some { s with table := table }
    | .error _ => some s
  | .begin_ worker publisher fails =>
    match s.sessions worker, fails with
    | some _, _ => none
    | none, some error =>
      some { s with ended := s.ended ++ [⟨some (.error (.database error)), false, []⟩] }
    | none, none => some (s.resume worker (.start publisher s.now))
  | .claim worker plan fails =>
    match s.sessions worker with
    | some session =>
      match session.stage with
      | .begun => some (s.claim worker session plan fails)
      | _ => none
    | none => none
  | .publish worker answer =>
    match s.sessions worker with
    | some session =>
      match session.stage with
      | .loop (row :: rest) published =>
        some (s.resume worker (session.publish row rest published answer))
      | _ => none
    | none => none
  | .update worker fails =>
    match s.sessions worker with
    | some session =>
      match session.stage with
      | .settling row verdict rest published =>
        some (s.update worker session row verdict rest published fails)
      | _ => none
    | none => none
  | .commit worker reply =>
    match s.sessions worker with
    | some session =>
      match session.stage with
      | .loop [] published => some (s.commit worker session published reply)
      | _ => none
    | none => none
  | .crash worker =>
    match s.sessions worker with
    | some session => some (s.close worker session none false)
    | none => none
  | .tick elapsed => some { s with now := s.now + elapsed }

end Machine

/- A plan that leaves a claim nothing but these rows, in their order. -/
def Plan.only (rows : List CompatRow) : Plan where
  locked := fun id => !rows.any (fun row => row.messageId == id)
  rank := fun id => (rows.map (·.messageId)).idxOf id

section Claim

variable {table before : CompatTable} {now : Timestamp} {limit : Int} {plan : Plan}
  {rows : List CompatRow}

instance (plan : Plan) : Std.Total (CompatRow.precedes plan) where
  total a b := by
    unfold CompatRow.precedes
    unfold Timestamp
    omega

instance (plan : Plan) : IsTrans CompatRow (CompatRow.precedes plan) where
  trans a b c := by
    unfold CompatRow.precedes Timestamp
    omega

/-- Rows claimed from an earlier table and still in this one can be claimed from this one. -/
theorem compatClaim_again (claimed : compatClaim before now limit plan = rows)
    (inside : ∀ row ∈ rows, row ∈ table.rows) :
    compatClaim table now limit (.only rows) = rows := by
  have distinct : (rows.map (·.messageId)).Nodup :=
    claimed ▸ compatClaim_distinct before now limit plan
  have due : ∀ row ∈ rows, row.due now = true :=
    fun row picked => (mem_compatClaim (claimed ▸ picked)).2.1
  have size : rows.length ≤ limit.toNat := claimed ▸ List.length_take_le _ _
  have ordered : rows.Pairwise (fun a b => a.createdAt ≤ b.createdAt) := by
    have sorted := (List.pairwise_insertionSort (CompatRow.precedes plan)
      (before.rows.filter (fun row => row.due now && !plan.locked row.messageId))).sublist
        (List.take_sublist limit.toNat _)
    rw [← claimed]
    refine sorted.imp ?_
    intro a b first
    unfold CompatRow.precedes at first
    unfold Timestamp at *
    omega
  have ranked : rows.Pairwise (CompatRow.precedes (.only rows)) := by
    rw [List.pairwise_iff_getElem] at ordered ⊢
    intro i j small large less
    have position : ∀ k (bound : k < rows.length),
        (Plan.only rows).rank rows[k].messageId = k := by
      intro k bound
      have here := distinct.idxOf_getElem k (by simpa using bound)
      simpa [Plan.only] using here
    have times : (rows[i].createdAt : Int) ≤ rows[j].createdAt := ordered i j small large less
    unfold CompatRow.precedes
    rw [position i small, position j large]
    unfold Timestamp at *
    omega
  have same :
      (table.rows.filter (fun row => row.due now && !(Plan.only rows).locked row.messageId)).Perm
      rows := by
    apply (List.perm_ext_iff_of_nodup ((List.Nodup.of_map _ table.unique).filter _)
      (List.Nodup.of_map _ distinct)).mpr
    intro row
    simp only [List.mem_filter, Plan.only, Bool.not_not, Bool.and_eq_true, List.any_eq_true,
      beq_iff_eq]
    constructor
    · rintro ⟨here, _, r, picked, id⟩
      exact table.same_id (inside r picked) here id ▸ picked
    · intro picked
      exact ⟨inside row picked, due row picked, row, picked, rfl⟩
  have sorted : (table.rows.filter (fun row => row.due now &&
      !(Plan.only rows).locked row.messageId)).insertionSort
        (CompatRow.precedes (.only rows)) = rows := by
    have permuted := (List.perm_insertionSort (CompatRow.precedes (.only rows)) _).trans same
    refine List.Perm.eq_of_pairwise ?_
      (List.pairwise_insertionSort (CompatRow.precedes (.only rows)) _) ranked permuted
    intro a b first second one other
    have ranks : (Plan.only rows).rank a.messageId = (Plan.only rows).rank b.messageId := by
      unfold CompatRow.precedes Timestamp at *
      omega
    have listed := List.mem_map_of_mem (f := fun row : CompatRow => row.messageId)
      (permuted.subset first)
    exact table.same_id (inside a (permuted.subset first)) (inside b second)
      ((List.idxOf_inj listed).mp ranks)
  unfold compatClaim
  rw [sorted, List.take_of_length_le size]
end Claim

/- A broker that gives prepared answers. -/
def replay : CompatBroker (List (Except String Unit)) := fun answers _ =>
  (answers.tail, answers.headD (.ok ()))

def CompatSession.answers (session : CompatSession) : List (Except String Unit) :=
  session.log.map (·.answer)

/- The rows the loop still has to settle. -/
def CompatStage.rows : CompatStage → List CompatClaimedRow
  | .begun => []
  | .loop rest _ => rest
  | .settling row _ rest _ => row :: rest

section Sessions

variable [External] {P : Type} {publisher : CompatOutboxPublisher} {table after : CompatTable}
  {session : CompatSession} {row : CompatRow} {s s' : CompatSystem} {a : CompatAction}
  {worker : Nat}

/- What a call made on its own does from a stage on. -/
def CompatStage.resume (env : Surroundings publisher table)
    (call : CompatCall (List (Except String Unit))) :
    CompatStage → Except CompatOutboxError Nat × CompatCall (List (Except String Unit))
  | .begun => (.ok 0, call)
  | .loop rest published => env.publishRows replay rest published call
  | .settling row verdict rest published =>
    match env.execute call row.messageId (verdict.update env.now ·) with
    | .error error => (.error error, call)
    | .ok call => env.publishRows replay (verdict.rest rest) (verdict.count published) call

/- A call made on its own comes to where the session is, as long as no database call fails. -/
def CompatSession.Follows (session : CompatSession) : Prop :=
  ∀ table : CompatTable, (∀ row ∈ session.locked, row ∈ table.rows) →
    ∀ env : Surroundings session.publisher table, env.now = session.startedAt →
      (∀ n < 2 + session.writes.length, env.fails n = none) → ∀ answers,
        env.publishRows replay (session.locked.map CompatRow.claimed) 0
            ⟨2, [], session.answers ++ answers, []⟩ =
          session.stage.resume env ⟨2 + session.writes.length, session.writes,
            answers, session.log⟩

structure CompatSession.Sound (session : CompatSession) (table : CompatTable) : Prop where
  begun : session.stage = .begun → session.locked = [] ∧ session.writes = [] ∧
    session.log = []
  claimed : ∃ before plan, compatClaim before session.startedAt session.publisher.batchSize plan =
    session.locked
  limited : session.stage ≠ .begun → 0 ≤ session.publisher.batchSize
  inside : ∀ row ∈ session.locked, row ∈ table.rows
  place : ∃ done rest skipped, session.locked = done ++ rest ++ skipped ∧
    rest.map CompatRow.claimed = session.stage.rows ∧
    session.writes.map (·.messageId) = (done.map (·.messageId)).reverse
  logged : ∀ handed ∈ session.log, ∃ row ∈ session.locked, row.check = .ok () ∧
    ∃ answer, handed = row.handed answer
  follows : session.stage ≠ .begun → session.Follows

omit [External] in
theorem CompatVerdict.update_id (verdict : CompatVerdict) (now : Timestamp) (row : CompatRow) :
    (verdict.update now row).messageId = row.messageId := by
  cases verdict <;> rfl

theorem CompatSession.Sound.due (sound : session.Sound table) (member : row ∈ session.locked) :
    row.due session.startedAt = true := by
  obtain ⟨before, plan, claimed⟩ := sound.claimed
  exact (mem_compatClaim (claimed ▸ member)).2.1

theorem CompatSession.Sound.distinct (sound : session.Sound table) :
    (session.locked.map (·.messageId)).Nodup := by
  obtain ⟨before, plan, claimed⟩ := sound.claimed
  exact claimed ▸ compatClaim_distinct before session.startedAt _ plan

/-- What others commit leaves a session as it is, if it leaves the session's rows. -/
theorem CompatSession.Sound.mono (sound : session.Sound table)
    (kept : ∀ row ∈ session.locked, row ∈ table.rows → row ∈ after.rows) :
    session.Sound after :=
  { sound with inside := fun row member => kept row member (sound.inside row member) }

theorem sound_start (publisher : CompatOutboxPublisher) (now : Timestamp) (table : CompatTable) :
    (CompatSession.start publisher now).Sound table where
  begun := fun _ => ⟨rfl, rfl, rfl⟩
  claimed := ⟨⟨[], List.nodup_nil⟩, .only [], by simp [CompatSession.start, compatClaim]⟩
  limited := fun away => absurd rfl away
  inside := by simp [CompatSession.start]
  place := ⟨[], [], [], rfl, rfl, rfl⟩
  logged := by simp [CompatSession.start]
  follows := fun away => absurd rfl away

theorem CompatSession.Sound.start {plan : Plan} (sound : session.Sound table)
    (begun : session.stage = .begun) (positive : ¬ session.publisher.batchSize < 0) :
    (session.claimed (compatClaim table session.startedAt session.publisher.batchSize plan)).Sound
      table where
  begun := by
    intro away
    cases away
  claimed := ⟨table, plan, rfl⟩
  limited := fun _ => not_lt.mp positive
  inside := fun _ picked => (mem_compatClaim picked).1
  place := by
    refine ⟨[], _, [], (List.append_nil _).symm, rfl, ?_⟩
    simp [CompatSession.claimed, (sound.begun begun).2.1]
  logged := by simp [CompatSession.claimed, (sound.begun begun).2.2]
  follows := by
    intro _ table inside env now clear answers
    obtain ⟨_, writes, log⟩ := sound.begun begun
    simp [CompatSession.claimed, CompatSession.answers, CompatStage.resume, writes, log]

/-- The row a session comes to is one it locked, and has not written. -/
theorem CompatSession.Sound.head (sound : session.Sound table) {claimed : CompatClaimedRow}
    {rest : List CompatClaimedRow} (rows : session.stage.rows = claimed :: rest) :
    ∃ done row later skipped, session.locked = done ++ row :: later ++ skipped ∧
      row.claimed = claimed ∧ later.map CompatRow.claimed = rest ∧
      session.writes.map (·.messageId) = (done.map (·.messageId)).reverse ∧
      ∀ w ∈ session.writes, w.messageId ≠ row.messageId := by
  obtain ⟨done, todo, skipped, whole, names, wrote⟩ := sound.place
  obtain ⟨row, later, rfl, here, tail⟩ := List.map_eq_cons_iff.mp (names.trans rows)
  refine ⟨done, row, later, skipped, whole, here, tail, wrote, ?_⟩
  intro w written same
  have listed : row.messageId ∈ done.map (·.messageId) := by
    have member := List.mem_map_of_mem (f := fun row : CompatRow => row.messageId) written
    rw [wrote, List.mem_reverse] at member
    exact same ▸ member
  have distinct := sound.distinct
  rw [whole, List.append_assoc, List.map_append] at distinct
  have apart := (List.nodup_append'.mp distinct).2.2 listed
  simp at apart

theorem CompatSession.Sound.publish (sound : session.Sound table) {claimed : CompatClaimedRow}
    {rest : List CompatClaimedRow} {published : Nat}
    (stage : session.stage = .loop (claimed :: rest) published)
    (answer : Except String Unit) :
    (session.publish claimed rest published answer).Sound table := by
  have rows : session.stage.rows = claimed :: rest := by rw [stage]; rfl
  obtain ⟨done, row, later, skipped, whole, here, tail, wrote, fresh⟩ := sound.head rows
  have follows := sound.follows (by simp [stage])
  have mine : row ∈ session.locked := by simp [whole]
  unfold CompatSession.publish
  split
  · rename_i error refused
    refine ⟨by simp, sound.claimed, fun _ => sound.limited (by simp [stage]), sound.inside, ?_,
      sound.logged, ?_⟩
    · exact ⟨done, row :: later, skipped, whole, by simp [CompatStage.rows, here, tail], wrote⟩
    · intro _ table' inside env now clear answers
      refine (follows table' inside env now clear answers).trans ?_
      simp only [stage, CompatStage.resume, Surroundings.publishRows, refused, CompatVerdict.update,
        CompatVerdict.rest, CompatVerdict.count]
      generalize env.execute _ _ _ = outcome
      cases outcome <;> rfl
  · rename_i valid
    refine ⟨?_, sound.claimed, fun _ => sound.limited (by simp [stage]),
      sound.inside, ?_, ?_, ?_⟩
    · cases answer <;> simp
    · refine ⟨done, row :: later, skipped, whole, ?_, wrote⟩
      cases answer <;> simp [CompatStage.rows, here, tail]
    · intro handed member
      rcases List.mem_append.mp member with old | new
      · exact sound.logged handed old
      · refine ⟨row, mine, ?_, answer, ?_⟩
        · rw [← here] at valid
          exact valid
        · rw [List.mem_singleton.mp new, ← here]
          rfl
    · intro _ table' inside env now clear answers
      have before := follows table' inside env now clear (answer :: answers)
      simp only [CompatSession.answers, List.map_append, List.map_cons, List.map_nil,
        List.append_assoc, List.cons_append, List.nil_append] at before ⊢
      refine before.trans ?_
      simp only [stage, CompatStage.resume, Surroundings.publishRows, valid,
        CompatCall.publish, replay]
      cases answer <;>
        simp only [List.headD_cons, List.tail_cons, CompatVerdict.update, CompatVerdict.rest,
          CompatVerdict.count, Surroundings.publishRows] <;>
        generalize env.execute _ _ _ = outcome <;>
        cases outcome <;> rfl

end Sessions
end FiduciaMessaging
