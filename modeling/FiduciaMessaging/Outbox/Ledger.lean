import FiduciaMessaging.Outbox.Invariants

/-! Who handed which row to the broker, and what a batch knows of the attempts of
the rows it leases. -/
namespace FiduciaMessaging

open Runs

def Event.offererOf (id : Uuid) : Event → Option Uuid
  | .offered owner record => if record.id = id then some owner else none
  | _ => none

/- The owners under whose claims `Publisher::publish` was called for a row, in order. -/
def offers (trace : List Event) (id : Uuid) : List Uuid := trace.filterMap (Event.offererOf id)

variable {s s' : System} {a : Action} {row row' : OutboxRow} {owner : Uuid} {batch : Batch}

theorem offers_append (first second : List Event) (id : Uuid) :
    offers (first ++ second) id = offers first id ++ offers second id := List.filterMap_append

theorem offers_single (record : OutboxRecord) (id : Uuid) :
    offers [.offered owner record] id = if record.id = id then [owner] else [] := by
  by_cases same : record.id = id <;> simp [offers, Event.offererOf, same]

/-- A claimed row's new attempt count fits the record's `u32`. -/
theorem leased_count {expires : Timestamp} (nonneg : 0 ≤ row.attempts)
    (fits : row.attempts + 1 ≤ i32Max) :
    ((row.leased owner expires).intoRecord.attempts.toNat : Int) = row.attempts + 1 := by
  have count : (UInt32.ofNat (row.attempts + 1).toNat).toNat = (row.attempts + 1).toNat := by
    refine UInt32.toNat_ofNat_of_lt' ?_
    unfold i32Max at fits
    simp only [UInt32.size]
    omega
  change ((UInt32.ofNat (row.attempts + 1).toNat).toNat : Int) = row.attempts + 1
  rw [count]
  omega

/-- It survives the way through `u32` and back. -/
theorem leased_attempts {expires : Timestamp} (nonneg : 0 ≤ row.attempts)
    (fits : row.attempts + 1 ≤ i32Max) :
    saturateI32 (row.leased owner expires).intoRecord.attempts = row.attempts + 1 := by
  unfold saturateI32
  rw [leased_count nonneg fits]
  exact min_eq_left fits

theorem RowMove.nonneg [External] (moved : RowMove s a row row') (before : 0 ≤ row.attempts) :
    0 ≤ row'.attempts := by
  cases moved with
  | kept => exact before
  | leased => exact Int.add_nonneg before Int.one_nonneg
  | settled o reply at_ _ _ _ _ settles =>
    cases settles with
    | published => exact before
    | parked => exact before
    | rescheduled => exact before
    | released => exact le_max_right _ _

structure Ledger (s : System) : Prop where
  known : ∀ id, ∀ o ∈ offers s.trace id, ∃ b, s.batches o = some b
  once : ∀ id, (offers s.trace id).Nodup
  ahead : ∀ o b, s.batches o = some b → (b.phase.toOffer.map (·.id)).Nodup ∧
    ∀ r ∈ b.phase.toOffer, o ∉ offers s.trace r.id
  waiting : ∀ row ∈ s.table, ∀ o, row.claimOwner = some o → row.status = .pending
  within : ∀ o b, s.batches o = some b → ∀ r ∈ b.phase.held, r ∈ b.leased
  counted : ∀ o b, s.batches o = some b → ∀ r ∈ b.leased, 1 ≤ saturateI32 r.attempts ∧
    ∀ row ∈ s.table, row.id = r.id → row.claimOwner = some o →
      row.attempts = saturateI32 r.attempts
  nonneg : ∀ row ∈ s.table, 0 ≤ row.attempts

theorem ledger_initial (now : Timestamp) : Ledger (.initial now) where
  known := by
    intro id o member
    cases member
  once := fun _ => List.nodup_nil
  ahead := by
    intro o b known
    cases known
  waiting := by
    intro row member
    cases member
  within := by
    intro o b known
    cases known
  counted := by
    intro o b known
    cases known
  nonneg := by
    intro row member
    cases member

section Step

variable [External]

theorem call_offers_nothing {table : List OutboxRow} {now at_ : Timestamp} {c : Call}
    (called : batch.call table now owner at_ = some c) (id : Uuid) : offers c.events id = [] := by
  cases call_calls called <;> rfl

/-- Only a publish call hands a row over. -/
theorem step_offers (taken : s.step a = some s') :
    (∀ id, offers s'.trace id = offers s.trace id) ∨
      ∃ owner b bytes r rest n, a = .publish owner ∧ s.batches owner = some b ∧
        b.phase = .offer bytes r rest n ∧
        ∀ id, offers s'.trace id = offers s.trace id ++ if r.id = id then [owner] else [] := by
  obtain ⟨events, grown, happened⟩ := step_trace taken
  have extended (id : Uuid) : offers s'.trace id = offers s.trace id ++ offers events id := by
    rw [grown, offers_append]
  cases happened with
  | silent => exact .inl (fun id => (extended id).trans (List.append_nil _))
  | staged => exact .inl (fun id => (extended id).trans (List.append_nil _))
  | acknowledged => exact .inl (fun id => (extended id).trans (List.append_nil _))
  | called known called =>
    left
    intro id
    rw [extended id, call_offers_nothing called, List.append_nil]
  | offered known phase =>
    refine .inr ⟨_, _, _, _, _, _, rfl, known, phase, ?_⟩
    intro id
    rw [extended id, offers_single]

theorem offers_unpublished (taken : s.step a = some s')
    (silent : ∀ o, a ≠ .publish o) (id : Uuid) :
    offers s'.trace id = offers s.trace id := by
  rcases step_offers taken with same | ⟨o, _, _, _, _, _, publishes, _⟩
  · exact same id
  · exact absurd publishes (silent o)

theorem offers_other (taken : s.step a = some s') (other : a.owner ≠ some owner) {id : Uuid} :
    owner ∈ offers s'.trace id ↔ owner ∈ offers s.trace id := by
  rcases step_offers taken with same | ⟨o, _, _, r, _, _, rfl, _, _, grown⟩
  · rw [same id]
  · have different : owner ≠ o := fun equal => other (equal ▸ rfl)
    rw [grown id]
    by_cases same : r.id = id <;> simp [same, different]

theorem BatchMove.offers {phase : Phase} (moved : BatchMove s a s' owner batch phase)
    (taken : s.step a = some s') : (∀ id, offers s'.trace id = offers s.trace id) ∨
      ∃ bytes r rest n, batch.phase = .offer bytes r rest n ∧ phase = .publishing r rest n ∧
        ∀ id, FiduciaMessaging.offers s'.trace id =
          FiduciaMessaging.offers s.trace id ++ if r.id = id then [owner] else [] := by
  cases moved with
  | publish bytes r rest n called before grown =>
    refine .inr ⟨bytes, r, rest, n, before, rfl, ?_⟩
    intro id
    rw [grown, offers_append, offers_single]
  | call c at_ called => exact .inl (offers_unpublished taken (by simp [called]))
  | error c reply at_ e called => exact .inl (offers_unpublished taken (by simp [called]))
  | acknowledged r rest n called => exact .inl (offers_unpublished taken (by simp [called]))
  | refused r rest n e called => exact .inl (offers_unpublished taken (by simp [called]))
  | crash called => exact .inl (offers_unpublished taken (by simp [called]))

theorem ledger_step (tracked : Tracked s) (ledger : Ledger s) (taken : s.step a = some s') :
    Ledger s' where
  known := by
    intro id o member
    have before : ∃ b, s.batches o = some b := by
      rcases step_offers taken with same | ⟨p, b, _, r, _, _, _, known, _, grown⟩
      · exact ledger.known id o (same id ▸ member)
      · rw [grown id] at member
        rcases List.mem_append.mp member with old | new
        · exact ledger.known id o old
        · split at new
          · rw [List.mem_singleton.mp new]
            exact ⟨b, known⟩
          · cases new
    obtain ⟨b, known⟩ := before
    obtain ⟨b', known', _⟩ := step_known_batch taken known
    exact ⟨b', known'⟩
  once := by
    intro id
    rcases step_offers taken with same | ⟨p, b, bytes, r, rest, n, _, known, phase, grown⟩
    · exact same id ▸ ledger.once id
    · rw [grown id]
      split
      · rename_i here
        have first : p ∉ offers s.trace r.id := by
          refine (ledger.ahead p b known).2 r ?_
          rw [phase]
          exact List.mem_cons_self
        rw [← here]
        exact List.nodup_append'.mpr ⟨ledger.once r.id, List.nodup_singleton _,
          List.disjoint_singleton.mpr first⟩
      · rw [List.append_nil]
        exact ledger.once id
  ahead := by
    intro o b' known'
    cases before : s.batches o with
    | none =>
      have unseen (id : Uuid) : o ∉ offers s.trace id := by
        intro member
        obtain ⟨b, known⟩ := ledger.known id o member
        cases before.symm.trans known
      obtain ⟨relay, plan, reply, rfl, _, ⟨e, ended, _⟩ | ⟨_, _, _, spec, start⟩⟩ :=
        step_new_batch taken before known'
      · rw [ended]
        exact ⟨List.nodup_nil, fun r member => absurd member (List.not_mem_nil)⟩
      · rw [start, loop_toOffer]
        refine ⟨spec.records_distinct tracked.unique, ?_⟩
        intro r _
        rw [offers_unpublished taken (fun _ => by simp)]
        exact unseen r.id
    | some b =>
      obtain ⟨distinct, ahead⟩ := ledger.ahead o b before
      obtain ⟨_, _, ⟨other, rfl⟩ | moved⟩ := step_batch taken before known'
      · exact ⟨distinct, fun r member => mt (offers_other taken other).mp (ahead r member)⟩
      · refine ⟨distinct.sublist (moved.toOffer.map _), ?_⟩
        intro r member
        rcases moved.offers taken with same | ⟨bytes, r0, rest, n, phase, phase', grown⟩
        · rw [same r.id]
          exact ahead r (moved.toOffer.subset member)
        · -- the row just handed over is not among those still ahead
          rw [phase'] at member
          rw [phase] at distinct ahead
          have apart : r0.id ≠ r.id := by
            intro equal
            exact (List.nodup_cons.mp distinct).1 (List.mem_map.mpr ⟨r, member, equal.symm⟩)
          rw [grown r.id, if_neg apart, List.append_nil]
          exact ahead r (List.mem_cons_of_mem _ member)
  waiting := by
    intro row' member o owned
    obtain ⟨row, inside, moved⟩ | ⟨record, startedAt, _, rfl, _⟩ :=
      row_origin tracked.apart taken member
    · cases moved with
      | kept => exact ledger.waiting row' inside o owned
      | leased o' relay plan reply ms _ _ _ due => exact (claimable_iff.mp due).1
      | settled o' reply at_ _ _ _ _ settles =>
        rw [settles.claimOwner] at owned
        cases owned
    · cases owned
  within := by
    intro o b' known' r held
    cases before : s.batches o with
    | none =>
      obtain ⟨_, _, _, _, _, ⟨e, ended, _⟩ | ⟨_, _, _, _, start⟩⟩ :=
        step_new_batch taken before known'
      · rw [ended] at held
        cases held
      · rwa [start, loop_held] at held
    | some b =>
      obtain ⟨_, leased, ⟨other, rfl⟩ | moved⟩ := step_batch taken before known'
      · exact ledger.within o _ before r held
      · rw [leased]
        exact ledger.within o b before r (moved.held.subset held)
  counted := by
    intro o b' known' r leased
    cases before : s.batches o with
    | none =>
      obtain ⟨relay, plan, reply, _, _, ⟨e, _, none_⟩ | ⟨_, _, _, spec, _⟩⟩ :=
        step_new_batch taken before known'
      · rw [none_] at leased
        cases leased
      · obtain ⟨r0, picked, rfl⟩ := spec.returned leased
        have due := spec.due r0 picked
        have nonneg := ledger.nonneg r0 due.1
        refine ⟨?_, ?_⟩
        · rw [leased_attempts nonneg due.2.2]
          omega
        · intro row' member same owned
          rw [leased_attempts nonneg due.2.2]
          obtain ⟨row, inside, ⟨_, rfl⟩ | ⟨_, rfl⟩⟩ := spec.origin tracked.unique member
          · obtain ⟨b, known⟩ := tracked.drawn _ inside o owned
            cases before.symm.trans known
          · rw [tracked.same_id inside due.1 same]
            rfl
    | some b =>
      obtain ⟨_, sameLeased, _⟩ := step_batch taken before known'
      obtain ⟨paid, counted⟩ := ledger.counted o b before r (sameLeased ▸ leased)
      refine ⟨paid, fun row' member same owned => ?_⟩
      exact counted row' (owned_origin tracked.apart taken before member owned) same owned
  nonneg := by
    intro row' member
    obtain ⟨row, inside, moved⟩ | ⟨record, startedAt, _, rfl, _⟩ :=
      row_origin tracked.apart taken member
    · exact moved.nonneg (ledger.nonneg row inside)
    · exact le_min (Int.natCast_nonneg _) (by decide)

theorem ledger_of_reaches {ok : System → Action → Prop} (tracked : Tracked s)
    (ledger : Ledger s)
    (reached : Reaches System.step ok s s') : Ledger s' :=
  reached.invariant_given Ledger (fun _ before => tracked_of_reaches tracked before) ledger
    (fun _ _ _ known before _ taken => ledger_step known before taken)

/-- What every claim's relay satisfies, the relay of every batch satisfies. -/
theorem relays_step (taken : s.step a = some s') (P : OutboxPublisher → Prop)
    (before : ∀ o b, s.batches o = some b → P b.relay)
    (claims : ∀ o relay plan reply, a = .claim o relay plan reply → P relay) :
    ∀ o b, s'.batches o = some b → P b.relay := by
  intro o b' known'
  cases known : s.batches o with
  | none =>
    obtain ⟨relay, plan, reply, called, same, _⟩ := step_new_batch taken known known'
    exact same ▸ claims o relay plan reply called
  | some b =>
    obtain ⟨relay, _⟩ := step_batch taken known known'
    exact relay ▸ before o b known

/- No batch is on its error path. -/
def Calm (s : System) : Prop :=
  ∀ o b, s.batches o = some b → ∀ error offered, b.phase ≠ .unwind error offered

theorem calm_step (taken : s.step a = some s') (calm : Calm s)
    (replies : ∀ o reply at_, a = .database o reply at_ → reply = .ok) : Calm s' := by
  intro o b' known' error offered unwinding
  cases known : s.batches o with
  | none =>
    obtain ⟨_, start⟩ | ⟨_, _, start⟩ := step_new_phase taken known known' <;>
      cases start.symm.trans unwinding
  | some b =>
    obtain ⟨_, _, ⟨_, rfl⟩ | moved⟩ := step_batch taken known known'
    · exact calm o _ known error offered unwinding
    · rw [unwinding] at moved
      obtain ⟨reply, at_, called, failed⟩ := moved.unwind
      exact failed (replies o reply at_ called)

end Step

end FiduciaMessaging
