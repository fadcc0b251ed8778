import FiduciaMessaging.Outbox.Invariants

/-! What a batch leaves leased when it returns. Every exit of the drain but one has
cleared or released each row the claim leased; the exit taken when a probe finds a
lapsed lease releases nothing. -/
namespace FiduciaMessaging

open Runs

/- Phases on the way out: what is left of the claim is about to be released, or the
worker is gone. -/
def Phase.winding : Phase → Bool
  | .fail _ _ _ => true
  | .release _ => true
  | .unwind _ _ => true
  | .crashed => true
  | _ => false

/- The unique columns keep the rows apart, and the batch `o` leases pending rows only. -/
structure Leasing (o : Uuid) (s : System) : Prop where
  apart : s.table.Pairwise OutboxRow.Apart
  drawn : ∃ b, s.batches o = some b
  waiting : ∀ row ∈ s.table, row.claimOwner = some o → row.status = .pending

/- The total a batch returned. -/
def Phase.returned : Phase → Option Nat
  | .done (.ok published) => some published
  | _ => none

theorem returned_some {phase : Phase} {n : Nat} (returned : phase.returned = some n) :
    phase = .done (.ok n) := by
  unfold Phase.returned at returned
  split at returned
  · rw [Option.some.inj returned]
  · cases returned

/- The rows a running batch still leases are those its loop has not settled. -/
def Holding (o : Uuid) (s : System) : Prop :=
  ∀ b, s.batches o = some b → ∀ row ∈ s.table, row.claimOwner = some o →
    (∃ r ∈ b.phase.held, r.id = row.id) ∨ b.phase.winding = true

/- A call of the batch may fail without taking effect, but not its release. -/
def Faults (o : Uuid) (s : System) : Action → Prop
  | .database owner (.failed _) _ => owner = o → ∀ b, s.batches o = some b →
      b.phase.releasing = false
  | .database owner (.lost _) _ => owner ≠ o
  | _ => True

/- How a step ends the lease of a row: marked published, parked, rescheduled or released
by its owner, or leased to another worker once it had lapsed. -/
inductive Ended (o : Uuid) (row : OutboxRow) : OutboxRow → Prop where
  | settled {row' : OutboxRow} : row.Settles row' → Ended o row row'
  | reclaimed (other : Uuid) (expires : Timestamp) : other ≠ o →
      Ended o row (row.leased other expires)

section Steps

variable [External]

/- The batch's next step is the exit at a lapsed lease, with a row of it still leased. -/
def Strands (o : Uuid) (s : System) (a : Action) : Prop :=
  ∃ at_ b r rest n bytes, a = .database o .ok at_ ∧ s.batches o = some b ∧
    b.phase = .row r rest n ∧ r.prepare = .ok bytes ∧
    claimStillHeld s.table s.now r.id o = false ∧ ∃ row ∈ s.table, row.claimOwner = some o

/- A batch claimed in `y` that has returned in `s` leaves no row with its owner, and each
row it leased lost that lease at a step in between. -/
def LeavesNoLease (o : Uuid) (y s : System) : Prop :=
  ∀ b result, s.batches o = some b → b.phase = .done result →
    (∀ row ∈ s.table, row.claimOwner ≠ some o) ∧
    ∀ r ∈ b.leased, ∃ u a v row row', Reaches System.step (fun _ _ => True) y u ∧
      u.step a = some v ∧ Reaches System.step (fun _ _ => True) v s ∧
      row ∈ u.table ∧ row.id = r.id ∧ row.claimOwner = some o ∧ row' ∈ v.table ∧
        Ended o row row'

variable {s s' x y : System} {a : Action} {o : Uuid} {b : Batch}

theorem Leasing.step (leasing : Leasing o s) (taken : s.step a = some s') : Leasing o s' := by
  obtain ⟨b, known⟩ := leasing.drawn
  obtain ⟨b', known', _⟩ := step_known_batch taken known
  refine ⟨apart_step leasing.apart taken, ⟨b', known'⟩, ?_⟩
  intro row member owned
  exact leasing.waiting row (owned_origin leasing.apart taken known member owned) owned

/-- After the claim of a fresh owner the rows it leases are the records it returned. -/
theorem holding_of_claim {relay : OutboxPublisher} {plan : Plan}
    (apart : x.table.Pairwise OutboxRow.Apart)
    (fresh : ∀ row ∈ x.table, row.claimOwner ≠ some o)
    (claimed : x.step (.claim o relay plan .ok) = some y) : Leasing o y ∧ Holding o y ∧
      ∀ b, y.batches o = some b → ∀ r ∈ b.leased,
        ∃ row ∈ y.table, row.id = r.id ∧ row.claimOwner = some o := by
  have unique := unique_of_apart apart
  rcases claim_leases claimed with ⟨same, e, known⟩ | ⟨ms, records, spec, known⟩
  · have unowned (row : OutboxRow) (inside : row ∈ y.table) : row.claimOwner ≠ some o :=
      fresh row (same ▸ inside)
    refine ⟨⟨apart_step apart claimed, ⟨_, known⟩, ?_⟩, ?_, ?_⟩
    · intro row inside owned
      exact absurd owned (unowned row inside)
    · intro _ _ row inside owned
      exact absurd owned (unowned row inside)
    · intro b known' r leased
      obtain rfl := Option.some.inj (known.symm.trans known')
      cases leased
  · have origin {row' : OutboxRow} (member : row' ∈ y.table) (owned : row'.claimOwner = some o) :
        ∃ row ∈ claimCandidates x.table x.now relay.batchSize plan,
          row' = row.leased o (x.now + ms * millisecond) := by
      obtain ⟨row, inside, ⟨_, rfl⟩ | ⟨picked, rfl⟩⟩ := spec.origin unique member
      · exact absurd owned (fresh _ inside)
      · exact ⟨row, picked, rfl⟩
    refine ⟨⟨apart_step apart claimed, ⟨_, known⟩, ?_⟩, ?_, ?_⟩
    · intro row' member owned
      obtain ⟨row, picked, rfl⟩ := origin member owned
      exact (claimable_iff.mp (spec.due row picked).2.1).1
    · intro b known' row' member owned
      obtain rfl := Option.some.inj (known.symm.trans known')
      obtain ⟨row, picked, rfl⟩ := origin member owned
      left
      rw [loop_held]
      have returned : (row.leased o (x.now + ms * millisecond)).intoRecord ∈ records :=
        spec.returns.mem_iff.mpr (List.mem_map_of_mem picked)
      exact ⟨_, returned, rfl⟩
    · intro b known' r leased
      obtain rfl := Option.some.inj (known.symm.trans known')
      obtain ⟨row, picked, rfl⟩ := spec.returned leased
      rcases spec.image unique (spec.due row picked).1 with ⟨other, _⟩ | ⟨_, member⟩
      · exact absurd picked other
      · exact ⟨_, member, rfl, rfl⟩

/-- Unless the batch takes the exit at a lapsed lease, it lets go of no row unsettled. -/
theorem holding_step (leasing : Leasing o s) (holding : Holding o s) (faults : Faults o s a)
    (kept : ¬ Strands o s a) (taken : s.step a = some s') : Holding o s' := by
  obtain ⟨b, known⟩ := leasing.drawn
  intro b' known' row member leased
  obtain ⟨_, _, moved⟩ := step_batch taken known known'
  have inside := owned_origin leasing.apart taken known member leased
  have before := holding b known row inside leased
  rcases moved with ⟨_, rfl⟩ | moved
  · exact before
  -- a mark takes the head of the list out of the caller's hands
  have tail {r : OutboxRecord} {rest : List OutboxRecord} {n : Nat}
      (held : b.phase.held = r :: rest) (awake : b.phase.winding = false)
      (disowned : row.id ≠ r.id) : ∃ r ∈ (Phase.loop rest n).held, r.id = row.id := by
    rcases before with ⟨r', here, same⟩ | impossible
    · rw [held] at here
      rcases List.mem_cons.mp here with rfl | later
      · exact absurd same.symm disowned
      · exact ⟨r', (loop_held rest n).symm ▸ later, same⟩
    · rw [awake] at impossible
      contradiction
  have same {phase : Phase} (held : b.phase.held = phase.held)
      (awake : b.phase.winding = false) :
      (∃ r ∈ phase.held, r.id = row.id) ∨ phase.winding = true := by
    rcases before with here | impossible
    · exact .inl (held ▸ here)
    · rw [awake] at impossible
      contradiction
  generalize b'.phase = phase at moved
  cases moved with
  | call c at_ called call table =>
    rw [table] at member
    cases call_calls call with
    | unprepared phase =>
      refine .inl (tail (by rw [phase]; rfl) (by rw [phase]; rfl) ?_)
      intro equal
      exact markFailed_disowns member equal leased
    | held phase => exact same (by rw [phase]; rfl) (by rw [phase]; rfl)
    | lapsed phase ready lost =>
      exact absurd ⟨at_, b, _, _, _, _, called, known, phase, ready, lost, row,
        inside, leased⟩ kept
    | marked phase =>
      refine .inl (tail (by rw [phase]; rfl) (by rw [phase]; rfl) ?_)
      intro equal
      exact markPublished_disowns member equal leased
    | markedLate phase =>
      refine .inl (tail (by rw [phase]; rfl) (by rw [phase]; rfl) ?_)
      intro equal
      exact markPublished_disowns member equal leased
    | recorded => exact .inr rfl
    | released => exact absurd leased (releaseOutboxClaims_disowns leasing.waiting member)
    | unwound => exact absurd leased (releaseOutboxClaims_disowns leasing.waiting member)
  | error c reply at_ e called failed call =>
    subst called
    have calm : b.phase.releasing = false := by
      cases reply with
      | ok => exact absurd rfl failed
      | failed e => exact faults rfl b known
      | lost e => exact absurd rfl faults
    cases call_calls call with
    | unwound phase =>
      rw [phase] at calm
      cases calm
    | _ => exact .inr rfl
  | publish bytes r rest n _ phase => exact same (by rw [phase]; rfl) (by rw [phase]; rfl)
  | acknowledged r rest n _ phase => exact same (by rw [phase]; rfl) (by rw [phase]; rfl)
  | refused => exact .inr rfl
  | crash => exact .inr rfl

/-- A lease held in `y` and gone in `s` ended at some step, and no purge ended it. -/
theorem lease_ended {id : Uuid} (leasing : Leasing o y)
    (later : Reaches System.step (fun _ _ => True) y s)
    (held : ∃ row ∈ y.table, row.id = id ∧ row.claimOwner = some o)
    (gone : ∀ row ∈ s.table, row.claimOwner ≠ some o) :
    ∃ u a v row row', Reaches System.step (fun _ _ => True) y u ∧ u.step a = some v ∧
      Reaches System.step (fun _ _ => True) v s ∧ row ∈ u.table ∧ row.id = id ∧
      row.claimOwner = some o ∧ row' ∈ v.table ∧ Ended o row row' := by
  have lost : ¬ ∃ row ∈ s.table, row.id = id ∧ row.claimOwner = some o := by
    rintro ⟨row, inside, _, owned⟩
    exact gone row inside owned
  obtain ⟨u, a, v, first, _, taken, last, ⟨row, inside, same, owned⟩, after⟩ :=
    later.exists_step_lost (fun z => ∃ row ∈ z.table, row.id = id ∧ row.claimOwner = some o)
      held lost
  have known : Leasing o u :=
    first.invariant (Leasing o) leasing (fun _ _ _ before _ step => before.step step)
  refine ⟨u, a, v, row, ?_⟩
  rcases row_image known.apart taken inside with ⟨row', inside', moved⟩ | ⟨_, published⟩
  · refine ⟨row', first, taken, last, inside, same, owned, inside', ?_⟩
    cases moved with
    | kept => exact absurd ⟨row, inside', same, owned⟩ after
    | leased other =>
      apply Ended.reclaimed
      rintro rfl
      exact after ⟨_, inside', same, rfl⟩
    | settled _ _ _ _ _ _ _ settles => exact .settled settles
  · have pending := known.waiting row inside owned
    rw [published] at pending
    contradiction

theorem leavesNoLease_of_holding (leasing : Leasing o y)
    (later : Reaches System.step (fun _ _ => True) y s) (holding : Holding o s)
    (first : ∀ b, y.batches o = some b → ∀ r ∈ b.leased,
      ∃ row ∈ y.table, row.id = r.id ∧ row.claimOwner = some o) : LeavesNoLease o y s := by
  intro b result known returned
  have gone : ∀ row ∈ s.table, row.claimOwner ≠ some o := by
    intro row inside owned
    rcases holding b known row inside owned with ⟨r, here, _⟩ | winding
    · rw [returned] at here
      cases here
    · rw [returned] at winding
      cases winding
  refine ⟨gone, ?_⟩
  intro r leased
  obtain ⟨b₀, known₀⟩ := leasing.drawn
  have same : b.leased = b₀.leased := by
    have carried : ∀ b', s.batches o = some b' → b'.leased = b₀.leased := by
      have kept : ∃ b', s.batches o = some b' ∧ b'.leased = b₀.leased := by
        apply later.invariant (fun z => ∃ b', z.batches o = some b' ∧ b'.leased = b₀.leased)
          ⟨b₀, known₀, rfl⟩
        intro z c w ⟨b', known', same'⟩ _ step
        obtain ⟨b'', known'', _, same'', _⟩ := step_known_batch step known'
        exact ⟨b'', known'', same''.trans same'⟩
      obtain ⟨b', known', same'⟩ := kept
      intro b'' known''
      obtain rfl := Option.some.inj (known'.symm.trans known'')
      exact same'
    exact carried b known
  exact lease_ended leasing later (first b₀ known₀ r (same ▸ leased)) gone

/-- A stranding step returns `Ok` with the batch's rows as they were. -/
theorem strands_return (strands : Strands o s a) (taken : s.step a = some s') :
    s'.table = s.table ∧ ∃ b n, s'.batches o = some b ∧ b.phase = .done (.ok n) := by
  obtain ⟨at_, b, r, rest, n, bytes, rfl, known, phase, ready, lost, _⟩ := strands
  obtain ⟨b', c, known', called,
      ⟨_, rfl⟩ | ⟨_, impossible, _⟩ | ⟨_, impossible, _⟩⟩ :=
    database_cases (show s.database o .ok at_ = some s' from taken)
  · obtain rfl := Option.some.inj (known.symm.trans known')
    simp only [Batch.call, phase, ready, lost, Bool.false_eq_true, if_false,
      Option.some.injEq] at called
    subst called
    exact ⟨rfl, _, n, if_pos rfl, rfl⟩
  · cases impossible
  · cases impossible

/-- A batch whose exits are not the one at a lapsed lease leaves no row leased when it
returns, whatever its calls answer; that exit leaves some row leased. -/
theorem no_lease_left_behind {relay : OutboxPublisher} {plan : Plan}
    (apart : x.table.Pairwise OutboxRow.Apart)
    (fresh : ∀ row ∈ x.table, row.claimOwner ≠ some o)
    (claimed : x.step (.claim o relay plan .ok) = some y) :
    (∀ s, Reaches System.step (fun s a => Faults o s a ∧ ¬ Strands o s a) y s →
      LeavesNoLease o y s) ∧
    ∀ s a s', Reaches System.step (Faults o) y s → Strands o s a → s.step a = some s' →
      ¬ LeavesNoLease o y s' := by
  obtain ⟨leasing, holding, first⟩ := holding_of_claim apart fresh claimed
  constructor
  · intro s later
    have kept : Leasing o s ∧ Holding o s := by
      apply later.invariant (fun z => Leasing o z ∧ Holding o z) ⟨leasing, holding⟩
      intro z a w before allowed taken
      exact ⟨before.1.step taken, holding_step before.1 before.2 allowed.1 allowed.2 taken⟩
    exact leavesNoLease_of_holding leasing (later.mono (fun _ _ _ => trivial)) kept.2 first
  · intro s a s' _ strands taken leaves
    obtain ⟨same, b, n, known, phase⟩ := strands_return strands taken
    obtain ⟨_, _, _, _, _, _, _, _, _, _, _, row, inside, owned⟩ := strands
    exact (leaves b _ known phase).1 row (same ▸ inside) owned

end Steps

section Sample

attribute [local instance] Sample.external

open Sample

/- Two rows are claimed, and the first publish takes as long as the lease. -/
def stagedRun : List Action := [.enqueue order1 0, .enqueue order2 0, .tick 1]

def lapsedRun : List Action :=
  [.database 1 .ok 0, .publish 1, .tick 300000000, .append (message order1), .answer 1 (.ok ()),
    .database 1 .ok 0, .database 1 .ok 0]

theorem lease_left_at_lapse : ∃ x y s, run System.step (.initial 0) stagedRun = some x ∧
    x.step (.claim 1 .new plan .ok) = some y ∧ run System.step y lapsedRun = some s ∧
    ¬ LeavesNoLease 1 y s := by
  have ends : ((run System.step (.initial 0) stagedRun).bind (fun x =>
      (x.step (.claim 1 .new plan .ok)).bind (fun y => run System.step y lapsedRun))).map (fun s =>
        ((s.batches 1).map (fun b => b.phase.returned), s.table.map (fun row => row.claimOwner))) =
      some (some (some 1), [none, some 1]) := by decide +kernel
  obtain ⟨s, taken, view⟩ := Option.map_eq_some_iff.mp ends
  obtain ⟨x, setup, taken⟩ := Option.bind_eq_some_iff.mp taken
  obtain ⟨y, claimed, taken⟩ := Option.bind_eq_some_iff.mp taken
  refine ⟨x, y, s, setup, claimed, taken, ?_⟩
  intro leaves
  obtain ⟨returned, owners⟩ := Prod.mk.inj view
  obtain ⟨b, known, phase⟩ := Option.map_eq_some_iff.mp returned
  have listed : some (1 : Uuid) ∈ [none, some 1] := List.mem_cons_of_mem _ List.mem_cons_self
  obtain ⟨row, inside, same⟩ := List.mem_map.mp (owners.symm ▸ listed)
  exact (leaves b _ known (returned_some phase)).1 row inside same

/- The first publish is refused within the lease, and the second row is released. -/
def stoppedRun : List Action :=
  [.database 1 .ok 0, .publish 1, .answer 1 (.error (.transport "no responders")),
    .database 1 .ok 0, .database 1 .ok 0]

/- Every call succeeds, and no probe of the batch finds its lease lapsed. -/
def answersLive (o : Uuid) (s : System) (a : Action) : Bool :=
  match a, s.batches o with
  | .database _ (.failed _) _, _ => false
  | .database _ (.lost _) _, _ => false
  | .database owner .ok _, some ⟨_, _, .row r _ _⟩ =>
    owner != o || claimStillHeld s.table s.now r.id o
  | _, _ => true

theorem answersLive_spec {o : Uuid} {s : System} {a : Action}
    (answered : answersLive o s a = true) :
    Faults o s a ∧ ¬ Strands o s a := by
  constructor
  · cases a with
    | database owner reply at_ =>
      cases reply with
      | ok => exact trivial
      | failed e => cases answered
      | lost e => cases answered
    | _ => exact trivial
  · rintro ⟨at_, ⟨relay, leased, _⟩, r, rest, n, bytes, rfl, known, rfl, _, lost, _⟩
    simp [answersLive, known, lost] at answered

theorem no_lease_left_behind_refused :
    ∃ x y s, run System.step (.initial 0) stagedRun = some x ∧
    x.step (.claim 1 .new plan .ok) = some y ∧
    run (guarded System.step (answersLive 1)) y stoppedRun = some s ∧
    s.table.map (fun row => (row.status, row.claimOwner)) = [(.pending, none), (.pending, none)] ∧
    LeavesNoLease 1 y s := by
  have ends : ((run System.step (.initial 0) stagedRun).bind (fun x =>
      (x.step (.claim 1 .new plan .ok)).bind (fun y =>
        run (guarded System.step (answersLive 1)) y stoppedRun))).map (fun s =>
          s.table.map (fun row => (row.status, row.claimOwner))) =
      some [(.pending, none), (.pending, none)] := by decide +kernel
  obtain ⟨s, taken, rows⟩ := Option.map_eq_some_iff.mp ends
  obtain ⟨x, setup, taken⟩ := Option.bind_eq_some_iff.mp taken
  obtain ⟨y, claimed, taken⟩ := Option.bind_eq_some_iff.mp taken
  have reached := (reaches_of_guarded taken).mono (fun _ _ answered => answersLive_spec answered)
  have tracked : Tracked x := tracked_of_reaches (tracked_initial 0)
    (reaches_of_run (fun _ _ => True) stagedRun setup (fun _ _ _ => trivial))
  have fresh : ∀ row ∈ x.table, row.claimOwner ≠ some 1 := by
    intro row inside owned
    obtain ⟨b, known⟩ := tracked.drawn row inside 1 owned
    exact absurd known (by rw [(claim_cases claimed).1]; exact nofun)
  exact ⟨x, y, s, setup, claimed, taken, rows,
    (no_lease_left_behind tracked.apart fresh claimed).1 s reached⟩

end Sample

end FiduciaMessaging
