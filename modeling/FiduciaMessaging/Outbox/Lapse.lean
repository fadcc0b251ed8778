import FiduciaMessaging.Outbox.Leases
import FiduciaMessaging.Outbox.Release

/-! What a batch that has returned still leases. The leases of a batch run out together, so
the exit at a lapsed lease, which releases nothing, leaves only leases that have run out. -/
namespace FiduciaMessaging

open Runs

def Phase.unwinding : Phase → Bool
  | .unwind _ _ => true
  | _ => false

/- No claim takes effect without an answer, and the release on the error path takes effect. -/
def orderly (s : System) : Action → Bool
  | .claim _ _ _ (.lost _) => false
  | .database owner (.failed _) _ => (s.batches owner).elim true (fun b => !b.phase.unwinding)
  | _ => true

variable {s s' : System} {a : Action} {o : Uuid} {b : Batch} {e : Timestamp}

/- The leases of the batch `o` end at one time. Until then a batch that is not on its way
out leases exactly what its loop has not settled. -/
structure Batch.Leases (b : Batch) (o : Uuid) (e : Timestamp) (s : System) : Prop where
  together : ∀ row ∈ s.table, row.claimOwner = some o → row.lease = some (o, e)
  open_ : e ≤ s.now ∨ b.phase.winding = true ∨
    (∀ row ∈ s.table, row.claimOwner = some o → ∃ r ∈ b.phase.held, r.id = row.id) ∧
      ∀ r ∈ b.phase.toOffer, s.Leases o r.id e

structure Lapsing (o : Uuid) (s : System) : Prop where
  distinct : ∀ b, s.batches o = some b → (b.phase.held.map (·.id)).Nodup
  leases : ∀ b, s.batches o = some b → ∃ e, b.Leases o e s

/-- A batch that has returned has no lease left that still runs. -/
theorem Lapsing.lapsed (lapsing : Lapsing o s) (known : s.batches o = some b)
    {result : Except MessagingError Nat}
    (returned : b.phase = .done result) {row : OutboxRow} (inside : row ∈ s.table)
    (leased : row.lease = some (o, e)) : e ≤ s.now := by
  obtain ⟨f, together, open_⟩ := lapsing.leases b known
  have owned := (lease_eq_some.mp leased).1
  obtain ⟨_, rfl⟩ :=
    Prod.mk.inj (Option.some.inj ((together row inside owned).symm.trans leased))
  rw [returned] at open_
  rcases open_ with lapsed | winding | ⟨held, _⟩
  · exact lapsed
  · cases winding
  · obtain ⟨r, impossible, _⟩ := held row inside owned
    cases impossible

theorem winding_offers_nothing {phase : Phase} (winding : phase.winding = true) :
    phase.toOffer = [] := by
  cases phase <;> first | rfl | cases winding

/-- An owner that no row names any more, with nothing to offer, has its leases in order. -/
theorem leases_none (none_ : ∀ row ∈ s.table, row.claimOwner ≠ some o)
    (offered : b.phase.toOffer = []) : b.Leases o e s := by
  refine ⟨fun row inside owned => absurd owned (none_ row inside), .inr (.inr ⟨?_, ?_⟩)⟩
  · intro row inside owned
    exact absurd owned (none_ row inside)
  · intro r member
    rw [offered] at member
    cases member

section Steps

variable [External]

/-- A claim leases what it returns, until one time; a failed claim leases nothing. -/
theorem lapsing_claim {relay : OutboxPublisher} {plan : Plan} {reply : Reply} (tracked : Tracked s)
    (answered : ∀ error, reply ≠ .lost error)
    (taken : s.step (.claim o relay plan reply) = some s') : Lapsing o s' := by
  obtain ⟨fresh, outcome⟩ := claim_cases taken
  have unowned : ∀ row ∈ s.table, row.claimOwner ≠ some o := by
    intro row inside owned
    obtain ⟨b, known⟩ := tracked.drawn row inside o owned
    cases fresh.symm.trans known
  rcases outcome with ⟨error, rfl⟩ |
    ⟨ms, after, records, _, spec, ⟨rfl, rfl⟩ | ⟨error, lost, _⟩⟩
  · constructor
    · intro b known
      cases Option.some.inj ((if_pos rfl).symm.trans (withBatch_batches.symm.trans known))
      exact List.nodup_nil
    · intro b known
      refine ⟨s.now, ?_, .inl (Int.le_refl _)⟩
      intro row inside owned
      exact absurd owned (unowned row inside)
  · have drawn {b : Batch} (known : (({ s with table := after }.withBatch o
        ⟨relay, records, .loop records 0⟩).batches o) = some b) :
        b = ⟨relay, records, .loop records 0⟩ := by
      rw [withBatch_batches, if_pos rfl] at known
      exact (Option.some.inj known).symm
    have origin {row' : OutboxRow} (inside : row' ∈ after) (owned : row'.claimOwner = some o) :
        ∃ row ∈ claimCandidates s.table s.now relay.batchSize plan,
          row' = row.leased o (s.now + ms * millisecond) := by
      obtain ⟨row, before, ⟨_, rfl⟩ | ⟨picked, rfl⟩⟩ :=
        spec.origin tracked.unique inside
      · exact absurd owned (unowned _ before)
      · exact ⟨row, picked, rfl⟩
    constructor
    · intro b known
      rw [drawn known, loop_held]
      exact spec.records_distinct tracked.unique
    · intro b known
      refine ⟨s.now + ms * millisecond, ?_, .inr (.inr ⟨?_, ?_⟩)⟩
      · intro row' inside owned
        obtain ⟨row, _, rfl⟩ := origin inside owned
        rfl
      · intro row' inside owned
        obtain ⟨row, picked, rfl⟩ := origin inside owned
        rw [drawn known, loop_held]
        have returned : (row.leased o (s.now + ms * millisecond)).intoRecord ∈ records :=
          spec.returns.mem_iff.mpr (List.mem_map_of_mem picked)
        exact ⟨_, returned, rfl⟩
      · intro r offered
        rw [drawn known, loop_toOffer] at offered
        obtain ⟨row, picked, rfl⟩ := spec.returned offered
        rcases spec.image tracked.unique (spec.due row picked).1 with ⟨other, _⟩ |
          ⟨_, inside⟩
        · exact absurd picked other
        · exact ⟨_, inside, rfl, rfl⟩
  · exact absurd lost (answered error)

/-- A failed or unanswered call puts the batch on its way out, or was the release there. -/
theorem lapsing_failed {c : Call} {reply : Reply} {at_ : Timestamp} {error : MessagingError}
    (leasing : Leasing o s) (quiet : orderly s (.database o reply at_) = true)
    (known : s.batches o = some b) (called : b.call s.table s.now o at_ = some c)
    (failed : reply ≠ .ok) (table : ∀ e, reply = .lost e → s'.table = c.table)
    (together : ∀ row ∈ s'.table, row.claimOwner = some o → row.lease = some (o, e)) :
    Batch.Leases { b with phase := c.onError error } o e s' := by
  cases call_calls called with
  | unwound phase =>
    cases reply with
    | ok => exact absurd rfl failed
    | failed e =>
      simp [orderly, known, phase, Phase.unwinding] at quiet
    | lost e =>
      apply leases_none _ rfl
      intro row inside
      rw [table e rfl] at inside
      exact releaseOutboxClaims_disowns leasing.waiting inside
  | _ => exact ⟨together, .inr (.inl rfl)⟩

/-- What a call leaves to offer does not include the row it settles. -/
theorem settled_not_offered {c : Call} {at_ : Timestamp} {row row' : OutboxRow} {r : OutboxRecord}
    (distinct : (b.phase.held.map (·.id)).Nodup) (called : b.call s.table s.now o at_ = some c)
    (settled : RowCall b s.now o at_ row row') (offered : r ∈ c.next.toOffer) :
    r.id ≠ row.id := by
  -- the row at the head of the list is settled, the rest is what is left
  have tail {r₀ : OutboxRecord} {rest : List OutboxRecord} (held : b.phase.held = r₀ :: rest)
      (same : row.id = r₀.id) (later : r ∈ rest) : r.id ≠ row.id := by
    rw [held, List.map_cons, List.nodup_cons] at distinct
    intro equal
    exact distinct.1 (List.mem_map.mpr ⟨r, later, equal.trans same⟩)
  cases settled with
  | unprepared phase bad same =>
    simp only [Batch.call, phase, bad, Option.some.injEq] at called
    subst called
    exact tail (by rw [phase]; rfl) same (by simpa using offered)
  | published phase same =>
    simp only [Batch.call, phase] at called
    split at called <;> cases called <;>
      exact tail (by rw [phase]; rfl) same (by simpa using offered)
  | exhausted phase =>
    simp only [Batch.call, phase, Option.some.injEq] at called
    subst called
    cases offered
  | rescheduled phase =>
    simp only [Batch.call, phase, Option.some.injEq] at called
    subst called
    cases offered
  | released releasing =>
    cases call_calls called with
    | released => cases offered
    | unwound => cases offered
    | recorded => cases offered
    | lapsed => cases offered
    | unprepared phase => simp [phase, Phase.releasing] at releasing
    | held phase => simp [phase, Phase.releasing] at releasing
    | marked phase => simp [phase, Phase.releasing] at releasing
    | markedLate phase => simp [phase, Phase.releasing] at releasing

/-- A row a batch still has to offer stays leased until its lease runs out: only the batch
itself could settle it, and it settles the row at its head or leaves the loop. -/
theorem offer_stays (leasing : Leasing o s) (paired : PairedTable s)
    (distinct : (b.phase.held.map (·.id)).Nodup) (known : s.batches o = some b)
    (taken : s.step a = some s') {b' : Batch} (known' : s'.batches o = some b')
    (answered : ∀ reply at_, a = .database o reply at_ → reply = .ok) {r : OutboxRecord}
    (next : r ∈ b'.phase.toOffer) (leased : s.Leases o r.id e) :
    e ≤ s.now ∨ s'.Leases o r.id e := by
  obtain ⟨row, inside, same, held⟩ := leased
  have owned := (lease_eq_some.mp held).1
  rcases row_image leasing.apart taken inside with ⟨row', inside', moved⟩ | ⟨_, published⟩
  · cases moved with
    | kept => exact .inr ⟨row, inside', same, held⟩
    | leased other relay plan reply ms _ _ _ due =>
      have free := (leaseFree_iff (paired row inside)).mp (claimable_iff.mp due).2.2
      exact .inl (free o e held)
    | settled other reply at_ _ b₁ called mine _ known₁ _ call =>
      obtain rfl := Option.some.inj (owned.symm.trans mine)
      obtain rfl := Option.some.inj (known.symm.trans known₁)
      obtain rfl := answered reply at_ called
      subst called
      obtain ⟨_, _, ⟨other, _⟩ | moved⟩ := step_batch taken known known'
      · exact absurd rfl other
      · generalize b'.phase = phase at next moved
        cases moved with
        | call c _ same' call' =>
          cases same'
          exact absurd same.symm (settled_not_offered distinct call' call next)
        | error _ _ _ _ same' failed =>
          cases same'
          exact absurd rfl failed
        | publish _ _ _ _ impossible => cases impossible
        | acknowledged _ _ _ impossible => cases impossible
        | refused _ _ _ _ impossible => cases impossible
        | crash impossible => cases impossible
  · rw [leasing.waiting row inside owned] at published
    cases published

/-- A step that is not a failing call of the batch keeps its leases in order. -/
theorem leases_step (leasing : Leasing o s) (tracked : Tracked s) (paired : PairedTable s)
    (distinct : (b.phase.held.map (·.id)).Nodup) (leases : b.Leases o e s)
    (known : s.batches o = some b) (taken : s.step a = some s')
    (answered : ∀ reply at_, a = .database o reply at_ → reply = .ok) {b' : Batch}
    (known' : s'.batches o = some b') : b'.Leases o e s' := by
  have together : ∀ row ∈ s'.table, row.claimOwner = some o → row.lease = some (o, e) := by
    intro row inside owned
    exact leases.together row (owned_origin leasing.apart taken known inside owned) owned
  refine ⟨together, ?_⟩
  by_cases lapsed : e ≤ s.now
  · exact .inl (le_trans lapsed (now_step taken))
  right
  have running : b.phase.winding = true ∨
      (∀ row ∈ s.table, row.claimOwner = some o → ∃ r ∈ b.phase.held, r.id = row.id) ∧
        ∀ r ∈ b.phase.toOffer, s.Leases o r.id e := leases.open_.resolve_left lapsed
  have offers : ∀ r ∈ b.phase.toOffer, s.Leases o r.id e := by
    rcases running with winding | ⟨_, offers⟩
    · rw [winding_offers_nothing winding]
      intro r impossible
      cases impossible
    · exact offers
  have unlapsed : ¬ Strands o s a := by
    rintro ⟨at_, b₀, r, rest, n, bytes, _, known₀, phase, _, lost, _⟩
    obtain rfl := Option.some.inj (known.symm.trans known₀)
    obtain ⟨row, inside, same, held⟩ := offers r (by rw [phase]; exact List.mem_cons_self)
    have live : claimStillHeld s.table s.now row.id o = true :=
      (claimStillHeld_iff tracked inside).mpr ⟨e, held, Int.not_le.mp lapsed⟩
    rw [same, lost] at live
    cases live
  have faults : Faults o s a := by
    cases a with
    | database owner reply at_ =>
      cases reply with
      | ok => trivial
      | failed error =>
        rintro rfl
        cases answered _ _ rfl
      | lost error =>
        rintro rfl
        cases answered _ _ rfl
    | _ => trivial
  have holding : Holding o s := by
    intro b₀ known₀ row inside owned
    obtain rfl := Option.some.inj (known.symm.trans known₀)
    exact running.symm.imp_left (fun held => held.1 row inside owned)
  have after := holding_step leasing holding faults unlapsed taken b' known'
  by_cases winding : b'.phase.winding = true
  · exact .inl winding
  refine .inr ⟨fun row inside owned => (after row inside owned).resolve_right winding, ?_⟩
  intro r offered
  have before : r ∈ b.phase.toOffer := by
    obtain ⟨_, _, ⟨_, rfl⟩ | moved⟩ := step_batch taken known known'
    · exact offered
    · exact moved.toOffer.subset offered
  exact (offer_stays leasing paired distinct known taken known' answered offered
    (offers r before)).resolve_left lapsed

theorem lapsing_step (tracked : Tracked s) (paired : PairedTable s)
    (waiting : ∀ row ∈ s.table, ∀ o, row.claimOwner = some o → row.status = .pending)
    (lapsing : Lapsing o s) (quiet : orderly s a = true) (taken : s.step a = some s') :
    Lapsing o s' := by
  cases before : s.batches o with
  | none =>
    by_cases drawn : s'.batches o = none
    · constructor
      · intro b known
        cases drawn.symm.trans known
      · intro b known
        cases drawn.symm.trans known
    · obtain ⟨b, known⟩ := Option.ne_none_iff_exists'.mp drawn
      obtain ⟨relay, plan, reply, rfl, _⟩ := step_new_batch taken before known
      refine lapsing_claim tracked ?_ taken
      rintro error rfl
      cases quiet
  | some b =>
    have leasing : Leasing o s :=
      ⟨tracked.apart, ⟨b, before⟩, fun row inside => waiting row inside o⟩
    obtain ⟨e, leases⟩ := lapsing.leases b before
    have distinct := lapsing.distinct b before
    constructor
    · intro b' known'
      obtain ⟨_, _, ⟨_, rfl⟩ | moved⟩ := step_batch taken before known'
      · exact distinct
      · exact distinct.sublist (moved.held.map _)
    · intro b' known'
      refine ⟨e, ?_⟩
      by_cases failed : ∃ reply at_, a = .database o reply at_ ∧ reply ≠ .ok
      · obtain ⟨reply, at_, rfl, wrong⟩ := failed
        have together : ∀ row ∈ s'.table, row.claimOwner = some o →
            row.lease = some (o, e) := by
          intro row inside owned
          exact leases.together row (owned_origin leasing.apart taken before inside owned) owned
        obtain ⟨b₀, c, known, called,
            ⟨rfl, _⟩ | ⟨error, rfl, rfl⟩ | ⟨error, rfl, rfl⟩⟩ :=
          database_cases (show s.database o reply at_ = some s' from taken)
        · exact absurd rfl wrong
        · obtain rfl := Option.some.inj (before.symm.trans known)
          obtain rfl :=
            Option.some.inj ((if_pos rfl).symm.trans (withBatch_batches.symm.trans known'))
          exact lapsing_failed leasing quiet known called wrong (by simp) together
        · obtain rfl := Option.some.inj (before.symm.trans known)
          obtain rfl :=
            Option.some.inj ((if_pos rfl).symm.trans (withBatch_batches.symm.trans known'))
          exact lapsing_failed leasing quiet known called wrong (by simp) together
      · have answered : ∀ reply at_, a = .database o reply at_ → reply = .ok := by
          intro reply at_ called
          by_contra wrong
          exact failed ⟨reply, at_, called, wrong⟩
        exact leases_step leasing tracked paired distinct leases before taken answered known'

end Steps

end FiduciaMessaging
