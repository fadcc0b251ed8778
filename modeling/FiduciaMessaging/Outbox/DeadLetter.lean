import FiduciaMessaging.Outbox.Retries
import FiduciaMessaging.Outbox.Leases

/-! One worker draining batch after batch. With no crash and no failing call, the
attempts of a row are the publish calls made for it, so long as every probe finds
the lease alive. -/
namespace FiduciaMessaging

open Runs

/- The worker and the batch it ran last. -/
structure Solo where
  system : System
  current : Option Uuid

def Solo.initial (now : Timestamp) : Solo := ⟨.initial now, none⟩

def Solo.idle (x : Solo) : Bool :=
  x.current.all (fun o => (x.system.batches o).all (fun b => b.phase.ended))

/- Rows are staged pending with no attempts, the worker runs one batch at a time with
the limit `m`, every database call succeeds and nothing crashes or is purged. -/
def soloAllows (m : Int) (x : Solo) : Action → Bool
  | .enqueue record _ => record.attempts == 0 && record.status == .pending
  | .claim _ relay _ reply => x.idle && relay.maxAttempts == m && reply.isOk
  | .database _ reply _ => reply.isOk
  | .crash _ => false
  | .purge _ => false
  | _ => true

def Action.claimant : Action → Option Uuid
  | .claim owner _ _ _ => some owner
  | _ => none

def soloStep [External] (m : Int) (x : Solo) (a : Action) : Option Solo :=
  if soloAllows m x a then (x.system.step a).map
    (fun s => ⟨s, a.claimant.or x.current⟩) else none

/- The lapsed-lease exit is not taken: the probe of the next row finds its lease alive. -/
def leaseLive (s : System) : Action → Bool
  | .database owner _ _ =>
    match s.batches owner with
    | some ⟨_, _, .row record _ _⟩ => claimStillHeld s.table s.now record.id owner
    | _ => true
  | _ => true

/- A batch that stopped at a failed publish and has not released the rest yet. -/
def Phase.closing : Phase → Bool
  | .fail _ _ _ => true
  | .release _ => true
  | _ => false

/- The row's last claim has not been spent on a publish call. -/
def Unspent (s : System) (row : OutboxRow) : Prop :=
  ∃ o, row.claimOwner = some o ∧ o ∉ offers s.trace row.id

structure Steady [External] (m : Int) (x : Solo) : Prop where
  tracked : Tracked x.system
  carried : Carried x.system
  ledger : Ledger x.system
  sound : ∀ row ∈ x.system.table, ∀ r : OutboxRecord, r.toStaged = row.toStaged →
    ∃ bytes, r.prepare = .ok bytes
  relays : ∀ o b, x.system.batches o = some b → b.relay.maxAttempts = m
  alone : ∀ o b, x.system.batches o = some b → b.phase.ended = false → x.current = some o
  calm : Calm x.system
  handed : ∀ o b, x.system.batches o = some b → ∀ r, b.phase.uncertain = some r →
    o ∈ offers x.system.trace r.id
  owned : ∀ row ∈ x.system.table, ∀ o, row.claimOwner = some o →
    o ∈ offers x.system.trace row.id ∨ ∃ b, x.system.batches o = some b ∧
      ((∃ r ∈ b.phase.toOffer, r.id = row.id) ∨ b.phase.closing = true)
  leasing : ∀ o b, x.system.batches o = some b → b.phase.ended = false → ∀ r ∈ b.leased,
    o ∈ offers x.system.trace r.id ∨
      ∃ row ∈ x.system.table, row.id = r.id ∧ row.claimOwner = some o
  spent : ∀ row ∈ x.system.table, row.attempts ≤ (offers x.system.trace row.id).length ∨
    (row.attempts ≤ (offers x.system.trace row.id).length + 1 ∧ Unspent x.system row)
  failed : ∀ row ∈ x.system.table, row.status = .failed →
    m ≤ (offers x.system.trace row.id).length

variable {s s' : System} {a : Action} {row row' : OutboxRow} {owner : Uuid} {batch : Batch}
  {m : Int} {x y : Solo}

theorem solo_keeps (allowed : soloAllows m x a = true) : a.purges = false := by
  cases a with
  | purge olderThan => cases allowed
  | _ => rfl

theorem solo_database {o : Uuid} {reply : Reply} {at_ : Timestamp}
    (allowed : soloAllows m x (.database o reply at_) = true) : reply = .ok := by
  cases reply with
  | ok => rfl
  | failed e => cases allowed
  | lost e => cases allowed

theorem leaseLive_spec {reply : Reply} {at_ : Timestamp}
    (live : leaseLive s (.database owner reply at_) = true) (known : s.batches owner = some batch)
    {r : OutboxRecord} {rest : List OutboxRecord} {n : Nat} (phase : batch.phase = .row r rest n) :
    claimStillHeld s.table s.now r.id owner = true := by
  obtain ⟨relay, leased, _⟩ := batch
  subst phase
  simpa [leaseLive, known] using live

theorem solo_relay {o : Uuid} {relay : OutboxPublisher} {plan : Plan} {reply : Reply}
    (allowed : soloAllows m x (.claim o relay plan reply) = true) :
    x.idle = true ∧ relay.maxAttempts = m ∧ reply = .ok := by
  simp only [soloAllows, Bool.and_eq_true, beq_iff_eq] at allowed
  obtain ⟨⟨idle, limit⟩, ok⟩ := allowed
  refine ⟨idle, limit, ?_⟩
  cases reply with
  | ok => rfl
  | failed e => cases ok
  | lost e => cases ok

section Lemmas

variable [External]

theorem prepare_congr {r r' : OutboxRecord} (same : r.toStaged = r'.toStaged) :
    r.prepare = r'.prepare := by
  have payload : r.payload = r'.payload := congrArg Staged.payload same
  have subject : r.subject = r'.subject := congrArg Staged.subject same
  rw [OutboxRecord.prepare, OutboxRecord.prepare, payload, subject]

theorem mem_offers_step (taken : s.step a = some s') {o id : Uuid}
    (member : o ∈ offers s.trace id) : o ∈ offers s'.trace id := by
  rcases step_offers taken with same | ⟨_, _, _, _, _, _, _, _, _, grown⟩
  · exact (same id).symm ▸ member
  · rw [grown id]
    exact List.mem_append_left _ member

/-- The list of publish calls of a row stays, or gains one owner. -/
theorem length_offers_step (taken : s.step a = some s') (id : Uuid) :
    offers s'.trace id = offers s.trace id ∨
      ∃ o, offers s'.trace id = offers s.trace id ++ [o] := by
  rcases step_offers taken with same | ⟨o, _, _, r, _, _, _, _, _, grown⟩
  · exact .inl (same id)
  · by_cases here : r.id = id
    · exact .inr ⟨o, by rw [grown id, if_pos here]⟩
    · exact .inl (by rw [grown id, if_neg here, List.append_nil])

theorem BatchMove.uncertain {phase : Phase} (moved : BatchMove s a s' owner batch phase)
    {r : OutboxRecord} (uncertain : phase.uncertain = some r) :
    batch.phase.uncertain = some r ∨ owner ∈ FiduciaMessaging.offers s'.trace r.id ∨
      ∃ reply at_, a = .database owner reply at_ ∧ reply ≠ .ok := by
  cases moved with
  | call c at_ _ called =>
    cases call_calls called with
    | unprepared => simp at uncertain
    | marked => simp at uncertain
    | markedLate => simp at uncertain
    | _ => cases uncertain
  | error c reply at_ e called failed => exact .inr (.inr ⟨reply, at_, called, failed⟩)
  | publish bytes r' rest n _ _ grown =>
    obtain rfl := Option.some.inj uncertain
    right; left
    rw [grown, offers_append, offers_single, if_pos rfl]
    exact List.mem_append_right _ List.mem_cons_self
  | acknowledged r' rest n _ before => exact .inl (by rw [before]; exact uncertain)
  | refused r' rest n e _ before => exact .inl (by rw [before]; exact uncertain)
  | crash => cases uncertain

theorem solo_cases (taken : soloStep m x a = some y) : soloAllows m x a = true ∧
    x.system.step a = some y.system ∧ y.current = a.claimant.or x.current := by
  unfold soloStep at taken
  split at taken
  · rename_i allowed
    obtain ⟨s, step, rfl⟩ := Option.map_eq_some_iff.mp taken
    exact ⟨allowed, step, rfl⟩
  · contradiction

/-- An idle worker has no batch running. -/
theorem Steady.none_active (steady : Steady m x) (idle : x.idle = true) {o : Uuid} {b : Batch}
    (known : x.system.batches o = some b) : b.phase.ended = true := by
  by_contra active
  have mine := steady.alone o b known (Bool.eq_false_iff.mpr active)
  rw [Solo.idle, mine] at idle
  simp only [Option.all_some, known] at idle
  exact active idle

theorem sound_step (steady : Steady m x) (taken : x.system.step a = some s') :
    ∀ row ∈ s'.table, ∀ r : OutboxRecord, r.toStaged = row.toStaged →
      ∃ bytes, r.prepare = .ok bytes := by
  intro row' member r same
  obtain ⟨row, inside, moved⟩ | ⟨record, startedAt, _, rfl, valid, _⟩ :=
    row_origin steady.tracked.apart taken member
  · exact steady.sound row inside r (same.trans moved.toStaged)
  · obtain ⟨bytes, ready⟩ := prepare_of_validate valid
    exact ⟨bytes, (prepare_congr same).trans ready⟩

/-- No record the worker holds is unfit to be sent. -/
theorem Steady.prepares (steady : Steady m x) (known : x.system.batches owner = some batch)
    {r : OutboxRecord} (held : r ∈ batch.phase.held) : ∃ bytes, r.prepare = .ok bytes := by
  obtain ⟨row, inside, same⟩ := steady.carried.held owner batch known r held
  exact steady.sound row inside r same.symm

theorem Steady.prepared (steady : Steady m x) (known : x.system.batches owner = some batch)
    {r : OutboxRecord} {rest : List OutboxRecord} {n : Nat} (phase : batch.phase = .row r rest n)
    (error : String) : r.prepare ≠ .error error := by
  have held : r ∈ batch.phase.held := by
    rw [phase]
    exact List.mem_cons_self
  obtain ⟨bytes, ready⟩ := steady.prepares known held
  rw [ready]
  simp

theorem alone_step (steady : Steady m x) (taken : soloStep m x a = some y) :
    ∀ o b, y.system.batches o = some b → b.phase.ended = false → y.current = some o := by
  obtain ⟨allowed, step, current⟩ := solo_cases taken
  intro o b' known' active
  cases known : x.system.batches o with
  | none =>
    obtain ⟨relay, plan, reply, rfl, _⟩ := step_new_batch step known known'
    exact current
  | some b =>
    have before : b.phase.ended = false := by
      obtain ⟨_, _, ⟨_, rfl⟩ | moved⟩ := step_batch step known known'
      · exact active
      · exact moved.active
    have mine := steady.alone o b known before
    cases a with
    | claim p relay plan reply =>
      have ended := steady.none_active (solo_relay allowed).1 known
      rw [before] at ended
      cases ended
    | _ => exact current.trans mine

theorem handed_step (steady : Steady m x) (taken : soloStep m x a = some y) :
    ∀ o b, y.system.batches o = some b → ∀ r, b.phase.uncertain = some r →
      o ∈ offers y.system.trace r.id := by
  obtain ⟨allowed, step, _⟩ := solo_cases taken
  intro o b' known' r uncertain
  cases known : x.system.batches o with
  | none =>
    obtain ⟨_, start⟩ | ⟨_, _, start⟩ := step_new_phase step known known' <;>
      rw [start] at uncertain <;> cases uncertain
  | some b =>
    obtain ⟨_, _, ⟨_, rfl⟩ | moved⟩ := step_batch step known known'
    · exact mem_offers_step step (steady.handed o _ known r uncertain)
    · rcases moved.uncertain uncertain with before | handed | ⟨reply, at_, rfl, failed⟩
      · exact mem_offers_step step (steady.handed o b known r before)
      · exact handed
      · exact absurd (solo_database allowed) failed

/-- As the batch moves on, an owned row is handed over, stays ahead, or the batch closes. -/
theorem Steady.owned_moved (steady : Steady m x) (allowed : soloAllows m x a = true)
    (live : leaseLive x.system a = true) (known : x.system.batches owner = some batch)
    {phase : Phase} (moved : BatchMove x.system a s' owner batch phase) (member : row' ∈ s'.table)
    (owned : row'.claimOwner = some owner)
    (before : (∃ r ∈ batch.phase.toOffer, r.id = row'.id) ∨ batch.phase.closing = true) :
    owner ∈ offers s'.trace row'.id ∨
      (∃ r ∈ phase.toOffer, r.id = row'.id) ∨ phase.closing = true := by
  cases moved with
  | call c at_ called' called table =>
    subst called'
    cases call_calls called with
    | unprepared phase bad => exact absurd bad (steady.prepared known phase _)
    | held phase =>
      rw [phase] at before
      exact .inr before
    | lapsed phase _ lost =>
      have held := leaseLive_spec live known phase
      rw [lost] at held
      cases held
    | marked phase =>
      rw [phase] at before
      rw [loop_toOffer]
      exact .inr (before.imp_right (fun impossible => nomatch impossible))
    | markedLate phase =>
      rw [phase] at before
      rw [loop_toOffer]
      exact .inr (before.imp_right (fun impossible => nomatch impossible))
    | recorded => exact .inr (.inr rfl)
    | released =>
      rw [table] at member
      exact absurd owned (releaseOutboxClaims_disowns
        (fun r inside => steady.ledger.waiting r inside _) member)
    | unwound phase => exact absurd phase (steady.calm owner batch known _ _)
  | error c reply at_ e called failed =>
    subst called
    exact absurd (solo_database allowed) failed
  | publish bytes r rest n _ phase grown =>
    rw [phase] at before
    rcases before with ⟨r', ahead, same⟩ | impossible
    · rcases List.mem_cons.mp ahead with rfl | later
      · left
        rw [grown, offers_append, offers_single, if_pos same]
        exact List.mem_append_right _ List.mem_cons_self
      · exact .inr (.inl ⟨r', later, same⟩)
    · cases impossible
  | acknowledged r rest n _ phase =>
    rw [phase] at before
    exact .inr (before.imp_right (fun impossible => nomatch impossible))
  | refused => exact .inr (.inr rfl)
  | crash called =>
    subst called
    cases allowed

theorem owned_step (steady : Steady m x) (taken : soloStep m x a = some y)
    (live : leaseLive x.system a = true) :
    ∀ row ∈ y.system.table, ∀ o, row.claimOwner = some o →
      o ∈ offers y.system.trace row.id ∨ ∃ b, y.system.batches o = some b ∧
        ((∃ r ∈ b.phase.toOffer, r.id = row.id) ∨ b.phase.closing = true) := by
  obtain ⟨allowed, step, _⟩ := solo_cases taken
  intro row' member o owned
  cases known : x.system.batches o with
  | none =>
    obtain ⟨b', known'⟩ := (tracked_step steady.tracked step).drawn row' member o owned
    obtain ⟨relay, plan, reply, rfl, _⟩ := step_new_batch step known known'
    obtain ⟨_, _, rfl⟩ := solo_relay allowed
    rcases claim_leases step with ⟨same, _⟩ | ⟨ms, records, spec, running⟩
    · obtain ⟨b, some_⟩ := steady.tracked.drawn row' (same ▸ member) o owned
      cases known.symm.trans some_
    · obtain ⟨row, inside, ⟨_, rfl⟩ | ⟨picked, rfl⟩⟩ :=
        spec.origin steady.tracked.unique member
      · obtain ⟨b, some_⟩ := steady.tracked.drawn _ inside o owned
        cases known.symm.trans some_
      · refine .inr ⟨_, running, .inl ?_⟩
        rw [loop_toOffer]
        exact ⟨_, spec.returns.mem_iff.mpr (List.mem_map.mpr ⟨row, picked, rfl⟩), rfl⟩
  | some b =>
    have inside := owned_origin steady.tracked.apart step known member owned
    rcases steady.owned row' inside o owned with offered | ⟨b0, known0, before⟩
    · exact .inl (mem_offers_step step offered)
    · obtain rfl := Option.some.inj (known.symm.trans known0)
      obtain ⟨b', known', _, _, ⟨_, rfl⟩ | moved⟩ := step_known_batch step known
      · exact .inr ⟨_, known', before⟩
      · exact (steady.owned_moved allowed live known moved member owned before).imp_right
          (fun ahead => ⟨b', known', ahead⟩)

/-- A settled row that was not released had been handed over under its claim. -/
theorem Steady.settled_offered (steady : Steady m x) (known : x.system.batches owner = some batch)
    {now at_ : Timestamp} (called : RowCall batch now owner at_ row row') :
    owner ∈ offers x.system.trace row.id ∨
      (batch.phase.releasing = true ∧ row.status = .pending ∧ row' = row.released) := by
  have handed {r : OutboxRecord} (uncertain : batch.phase.uncertain = some r)
      (same : row.id = r.id) : owner ∈ offers x.system.trace row.id :=
    same ▸ steady.handed owner batch known r uncertain
  cases called with
  | unprepared phase bad => exact absurd bad (steady.prepared known phase _)
  | published phase same => exact .inl (handed (by rw [phase]; rfl) same)
  | exhausted phase _ same => exact .inl (handed (by rw [phase]; rfl) same)
  | rescheduled phase _ same => exact .inl (handed (by rw [phase]; rfl) same)
  | released releasing pending => exact .inr ⟨releasing, pending, rfl⟩

theorem leasing_step (steady : Steady m x) (taken : soloStep m x a = some y) :
    ∀ o b, y.system.batches o = some b → b.phase.ended = false → ∀ r ∈ b.leased,
      o ∈ offers y.system.trace r.id ∨
        ∃ row ∈ y.system.table, row.id = r.id ∧ row.claimOwner = some o := by
  obtain ⟨allowed, step, _⟩ := solo_cases taken
  intro o b' known' active r leased
  cases known : x.system.batches o with
  | none =>
    obtain ⟨relay, plan, reply, rfl, _⟩ := step_new_batch step known known'
    obtain ⟨_, _, rfl⟩ := solo_relay allowed
    rcases claim_leases step with ⟨_, e, ended⟩ | ⟨ms, records, spec, running⟩
    · obtain rfl := Option.some.inj (ended.symm.trans known')
      cases active
    · obtain rfl := Option.some.inj (running.symm.trans known')
      obtain ⟨r0, picked, rfl⟩ := spec.returned leased
      obtain ⟨unpicked, _⟩ | ⟨_, inside⟩ :=
        spec.image steady.tracked.unique (spec.due r0 picked).1
      · exact absurd picked unpicked
      · exact .inr ⟨_, inside, rfl, rfl⟩
  | some b =>
    obtain ⟨_, sameLeased, moved⟩ := step_batch step known known'
    have before : b.phase.ended = false := by
      rcases moved with ⟨_, rfl⟩ | moved
      · exact active
      · exact moved.active
    rcases steady.leasing o b known before r (sameLeased ▸ leased) with
      offered | ⟨row, inside, same, owned⟩
    · exact .inl (mem_offers_step step offered)
    · obtain ⟨row', inside', rowMoved⟩ :=
        row_stays steady.tracked (solo_keeps allowed) step inside
      have sameId : row'.id = r.id := (congrArg Staged.id rowMoved.toStaged).trans same
      cases rowMoved with
      | kept => exact .inr ⟨_, inside', sameId, owned⟩
      | leased p relay plan reply ms called =>
        subst called
        have ended := steady.none_active (solo_relay allowed).1 known
        rw [before] at ended
        cases ended
      | settled p reply at_ _ b0 called owned' settles known0 _ changed =>
        subst called
        obtain rfl := Option.some.inj (owned.symm.trans owned')
        obtain rfl := Option.some.inj (known.symm.trans known0)
        rcases steady.settled_offered known changed with offered | ⟨releasing, _⟩
        · exact .inl (mem_offers_step step (same ▸ offered))
        · rcases moved with ⟨other, _⟩ | moved
          · exact absurd rfl other
          · have ended := moved.releasing (fun reply' at' equal => by
              cases equal
              exact solo_database allowed) releasing
            rw [active] at ended
            cases ended

/-- A row handed over under its claim carries no unspent attempt. -/
theorem Steady.spent_offered (steady : Steady m x) (inside : row ∈ x.system.table)
    (owned : row.claimOwner = some owner) (offered : owner ∈ offers x.system.trace row.id) :
    row.attempts ≤ (offers x.system.trace row.id).length := by
  rcases steady.spent row inside with paid | ⟨_, o, owned', unoffered⟩
  · exact paid
  · obtain rfl := Option.some.inj (owned.symm.trans owned')
    exact absurd offered unoffered

/-- When the worker is idle no row carries an unspent attempt. -/
theorem Steady.spent_idle (steady : Steady m x) (idle : x.idle = true)
    (inside : row ∈ x.system.table) : row.attempts ≤ (offers x.system.trace row.id).length := by
  rcases steady.spent row inside with paid | ⟨_, o, owned, unoffered⟩
  · exact paid
  · rcases steady.owned row inside o owned with offered | ⟨b, known, running⟩
    · exact absurd offered unoffered
    · have ended := steady.none_active idle known
      cases phase : b.phase <;> simp_all [Phase.ended, Phase.toOffer, Phase.closing]

theorem spent_step (steady : Steady m x) (taken : soloStep m x a = some y) :
    ∀ row ∈ y.system.table, row.attempts ≤ (offers y.system.trace row.id).length ∨
      (row.attempts ≤ (offers y.system.trace row.id).length + 1 ∧ Unspent y.system row) := by
  obtain ⟨allowed, step, _⟩ := solo_cases taken
  intro row' member
  obtain ⟨row, inside, moved⟩ | ⟨record, startedAt, rfl, rfl, _⟩ :=
    row_origin steady.tracked.apart step member
  · have sameId : row'.id = row.id := congrArg Staged.id moved.toStaged
    cases moved with
    | kept =>
      rcases length_offers_step step row'.id with same | ⟨o, grown⟩
      · rw [Unspent, same]
        exact steady.spent row' inside
      · left
        rw [grown, List.length_append, List.length_singleton]
        rcases steady.spent row' inside with paid | ⟨bound, _⟩ <;> omega
    | leased o relay plan reply ms called fresh =>
      subst called
      have before := steady.spent_idle (solo_relay allowed).1 inside
      have silent := offers_unpublished step (fun _ => by simp) row.id
      right
      refine ⟨?_, o, rfl, ?_⟩
      · change row.attempts + 1 ≤ ((offers y.system.trace row.id).length : Int) + 1
        rw [silent]
        omega
      · intro offered
        change o ∈ offers y.system.trace row.id at offered
        rw [silent] at offered
        obtain ⟨b, known⟩ := steady.ledger.known _ o offered
        cases fresh.symm.trans known
    | settled o reply at_ _ b called owned settles known _ changed =>
      subst called
      left
      rw [sameId, offers_unpublished step (fun _ => by simp) row.id]
      rcases steady.settled_offered known changed with offered | ⟨_, _, rfl⟩
      · have paid := steady.spent_offered inside owned offered
        cases changed with
        | released =>
          change max (row.attempts - 1) 0 ≤ ((offers x.system.trace row.id).length : Int)
          omega
        | _ => exact paid
      · change max (row.attempts - 1) 0 ≤ ((offers x.system.trace row.id).length : Int)
        rcases steady.spent row inside with paid | ⟨bound, _⟩ <;> omega
  · left
    have zero : record.attempts = 0 := by
      simp only [soloAllows, Bool.and_eq_true, beq_iff_eq] at allowed
      exact allowed.1
    have none_ : (record.row startedAt).attempts = 0 := by
      simp [OutboxRecord.row, zero, saturateI32, i32Max]
    rw [none_]
    exact Int.natCast_nonneg _

theorem failed_step (steady : Steady m x) (taken : soloStep m x a = some y) :
    ∀ row ∈ y.system.table, row.status = .failed →
      m ≤ (offers y.system.trace row.id).length := by
  obtain ⟨allowed, step, _⟩ := solo_cases taken
  intro row' member failed
  have longer (id : Uuid) :
      (offers x.system.trace id).length ≤ (offers y.system.trace id).length := by
    rcases length_offers_step step id with same | ⟨o, grown⟩
    · rw [same]
    · rw [grown, List.length_append]
      exact Nat.le_add_right _ _
  obtain ⟨row, inside, moved⟩ | ⟨record, startedAt, rfl, rfl, _⟩ :=
    row_origin steady.tracked.apart step member
  · have more := longer row.id
    cases moved with
    | kept =>
      have before := steady.failed row' inside failed
      omega
    | leased o relay plan reply ms _ _ _ due =>
      change row.status = .failed at failed
      rw [(claimable_iff.mp due).1] at failed
      cases failed
    | settled o reply at_ _ b called owned settles known _ changed =>
      cases changed with
      | unprepared phase bad => exact absurd bad (steady.prepared known phase _)
      | published => cases failed
      | exhausted phase limit same =>
        have held := steady.ledger.within o b known _ (by rw [phase]; exact List.mem_cons_self)
        have counted := (steady.ledger.counted o b known _ held).2 row inside same owned
        have offered : o ∈ offers x.system.trace row.id :=
          same ▸ steady.handed o b known _ (by rw [phase]; rfl)
        have paid := steady.spent_offered inside owned offered
        rw [steady.relays o b known, ← counted] at limit
        change m ≤ ((offers y.system.trace row.id).length : Int)
        omega
      | rescheduled _ _ _ _ pending =>
        change row.status = .failed at failed
        rw [pending] at failed
        cases failed
      | released _ pending =>
        change row.status = .failed at failed
        rw [pending] at failed
        cases failed
  · simp only [soloAllows, Bool.and_eq_true, beq_iff_eq] at allowed
    change record.status = .failed at failed
    rw [allowed.2] at failed
    cases failed

theorem steady_initial (now : Timestamp) : Steady m (.initial now) where
  tracked := tracked_initial now
  carried := carried_initial now
  ledger := ledger_initial now
  sound := by
    intro row member
    cases member
  relays := by
    intro o b known
    cases known
  alone := by
    intro o b known
    cases known
  calm := by
    intro o b known
    cases known
  handed := by
    intro o b known
    cases known
  owned := by
    intro row member
    cases member
  leasing := by
    intro o b known
    cases known
  spent := by
    intro row member
    cases member
  failed := by
    intro row member
    cases member

theorem steady_step (steady : Steady m x) (live : leaseLive x.system a = true)
    (taken : soloStep m x a = some y) : Steady m y := by
  obtain ⟨allowed, step, _⟩ := solo_cases taken
  have relays : ∀ o b, y.system.batches o = some b → b.relay.maxAttempts = m := by
    refine relays_step step (fun relay => relay.maxAttempts = m) steady.relays ?_
    rintro o relay plan reply rfl
    exact (solo_relay allowed).2.1
  have calm : Calm y.system := by
    refine calm_step step steady.calm ?_
    rintro o reply at_ rfl
    exact solo_database allowed
  exact ⟨tracked_step steady.tracked step,
    carried_step steady.tracked steady.carried (solo_keeps allowed) step,
    ledger_step steady.tracked steady.ledger step, sound_step steady step, relays,
    alone_step steady taken, calm, handed_step steady taken, owned_step steady taken live,
    leasing_step steady taken, spent_step steady taken, failed_step steady taken⟩

/-- A batch that returns has undone the attempt of every row it leased and never offered. -/
theorem Steady.undone (steady : Steady m x) (live : leaseLive x.system a = true)
    (taken : soloStep m x a = some y) (known : x.system.batches owner = some batch)
    (active : batch.phase.ended = false) {batch' : Batch}
    (known' : y.system.batches owner = some batch') (ended : batch'.phase.ended = true)
    {r : OutboxRecord} (leased : r ∈ batch.leased)
    (unoffered : owner ∉ offers y.system.trace r.id) :
    ∃ row ∈ y.system.table, row.id = r.id ∧ row.claimOwner = none ∧
      row.attempts + 1 = saturateI32 r.attempts := by
  obtain ⟨allowed, step, _⟩ := solo_cases taken
  have before : owner ∉ offers x.system.trace r.id := mt (mem_offers_step step) unoffered
  obtain offered | ⟨row, inside, same, owned⟩ :=
    steady.leasing owner batch known active r leased
  · exact absurd offered before
  have ahead := (steady.owned row inside owner owned).resolve_left (same.symm ▸ before)
  obtain ⟨b, known0, running⟩ := ahead
  obtain rfl := Option.some.inj (known.symm.trans known0)
  obtain ⟨_, _, ⟨_, rfl⟩ | moved⟩ := step_batch step known known'
  · rw [active] at ended
    cases ended
  · generalize batch'.phase = phase at moved ended
    cases moved with
    | call c at_ called' called table =>
      subst called'
      cases call_calls called with
      | unprepared phase bad => exact absurd bad (steady.prepared known phase _)
      | held => cases ended
      | lapsed phase _ lost =>
        have held := leaseLive_spec live known phase
        rw [lost] at held
        cases held
      | @marked r0 rest n phase =>
        rw [phase] at running
        cases rest with
        | nil => rcases running with ⟨_, impossible, _⟩ | impossible <;> cases impossible
        | cons => cases ended
      | @markedLate r0 rest n phase =>
        rw [phase] at running
        cases rest with
        | nil => rcases running with ⟨_, impossible, _⟩ | impossible <;> cases impossible
        | cons => cases ended
      | recorded => cases ended
      | released =>
        have pending := steady.ledger.waiting row inside owner owned
        obtain ⟨paid, counted⟩ := steady.ledger.counted owner batch known r leased
        have attempts := counted row inside same owned
        refine ⟨row.released, ?_, same, rfl, ?_⟩
        · rw [table]
          refine RowSet.mem_updateWhere.mpr ⟨row, inside, ?_⟩
          rw [if_pos (pendingOf_iff.mpr ⟨pending, owned⟩)]
        · change max (row.attempts - 1) 0 + 1 = saturateI32 r.attempts
          omega
      | unwound phase => exact absurd phase (steady.calm owner batch known _ _)
    | error c reply at_ e called failed =>
      subst called
      exact absurd (solo_database allowed) failed
    | crash called =>
      subst called
      cases allowed
    | _ => cases ended

/-- While every probe finds its lease alive, a row is failed only after `m` publish
calls, and a batch that returns has undone the attempts it did not use. -/
theorem no_premature_dead_letter {now : Timestamp} (reached : Reaches (soloStep m)
    (fun x a => leaseLive x.system a = true) (.initial now) x) :
    (∀ row ∈ x.system.table, row.status = .failed →
      m ≤ (offers x.system.trace row.id).length) ∧
    ∀ a y o b b', leaseLive x.system a = true → soloStep m x a = some y →
      x.system.batches o = some b → b.phase.ended = false →
      y.system.batches o = some b' → b'.phase.ended = true →
      ∀ r ∈ b.leased, o ∉ offers y.system.trace r.id → ∃ row ∈ y.system.table,
        row.id = r.id ∧ row.claimOwner = none ∧ row.attempts + 1 = saturateI32 r.attempts := by
  have steady : Steady m x := reached.invariant (Steady m) (steady_initial now)
    (fun _ _ _ before live taken => steady_step before live taken)
  refine ⟨steady.failed, ?_⟩
  intro a y o b b' live taken known active known' ended r leased unoffered
  exact steady.undone live taken known active known' ended leased unoffered

end Lemmas

section Sample

attribute [local instance] Sample.external

open Sample

def twoAttempts : OutboxPublisher := OutboxPublisher.new.withMaxAttempts 2

/- The first row's publish takes as long as the lease, so the second row keeps the
attempt of a claim that never reached it; its only publish call is its last. -/
def slowRun : List Action :=
  [.enqueue order1 0, .enqueue order2 0, .tick 1,
    .claim 1 twoAttempts plan .ok, .database 1 .ok 0, .publish 1, .tick 300000000,
    .append (message order1), .answer 1 (.ok ()), .database 1 .ok 0, .database 1 .ok 0,
    .claim 2 twoAttempts plan .ok, .database 2 .ok 0, .publish 2,
    .answer 2 (.error (.transport "no responders")), .database 2 .ok 0]

theorem dead_lettered_early : ∃ x, run (soloStep 2) (.initial 0) slowRun = some x ∧
    ¬ ∀ row ∈ x.system.table, row.status = .failed →
      (2 : Int) ≤ (offers x.system.trace row.id).length := by
  have counts : (run (soloStep 2) (.initial 0) slowRun).map (fun x =>
      x.system.table.map (fun row => (row.status, (offers x.system.trace row.id).length))) =
      some [(.published, 1), (.failed, 1)] := by decide +kernel
  obtain ⟨x, taken, rows⟩ := Option.map_eq_some_iff.mp counts
  refine ⟨x, taken, fun holds => ?_⟩
  have found : (OutboxStatus.failed, 1) ∈
      x.system.table.map (fun row => (row.status, (offers x.system.trace row.id).length)) := by
    rw [rows]
    exact List.mem_cons_of_mem _ List.mem_cons_self
  obtain ⟨row, inside, same⟩ := List.mem_map.mp found
  obtain ⟨failed, once⟩ := Prod.mk.inj same
  have bound := holds row inside failed
  omega

/- The first publish is refused within the lease; the second row is released untouched. -/
theorem no_premature_dead_letter_refused : ∃ x, run (guarded (soloStep 2)
    (fun x a => leaseLive x.system a)) (.initial 0)
    [.enqueue order1 0, .enqueue order2 0, .tick 1, .claim 1 twoAttempts plan .ok,
      .database 1 .ok 0, .publish 1, .answer 1 (.error (.transport "no responders")),
      .database 1 .ok 0, .database 1 .ok 0] = some x ∧
    ∀ row ∈ x.system.table, row.status = .failed →
      (2 : Int) ≤ (offers x.system.trace row.id).length := by
  have runs : (run (guarded (soloStep 2) (fun x a => leaseLive x.system a)) (.initial 0)
      [.enqueue order1 0, .enqueue order2 0, .tick 1, .claim 1 twoAttempts plan .ok,
        .database 1 .ok 0, .publish 1, .answer 1 (.error (.transport "no responders")),
        .database 1 .ok 0, .database 1 .ok 0]).isSome = true := by decide +kernel
  obtain ⟨x, taken⟩ := Option.isSome_iff_exists.mp runs
  exact ⟨x, taken, (no_premature_dead_letter (reaches_of_guarded taken)).1⟩

end Sample

end FiduciaMessaging
