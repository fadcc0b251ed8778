import FiduciaMessaging.Outbox.Delivery
import FiduciaMessaging.Outbox.Ledger
import Mathlib.Data.Finset.Card

/-! Attempts against publish calls. Every owner that has handed a row over, or still
may, is paid for by one attempt of the row; only a release takes an attempt back. -/
namespace FiduciaMessaging

open Runs

variable {s s' : System} {a : Action} {row row' : OutboxRow} {owner : Uuid} {batch : Batch}

/- The record whose outcome is still to be recorded after its publish call. -/
def Phase.uncertain : Phase → Option OutboxRecord
  | .publishing record _ _ => some record
  | .mark record _ _ => some record
  | .fail record _ _ => some record
  | .unwind _ offered => offered
  | _ => none

@[simp] theorem loop_uncertain (rest : List OutboxRecord) (n : Nat) :
    (Phase.loop rest n).uncertain = none := by
  cases rest <;> rfl

/- A running batch no longer owns a row it handed over, but for the uncertain one. -/
def Resolved (s : System) : Prop :=
  ∀ o b, s.batches o = some b → b.phase.ended = false → ∀ id, o ∈ offers s.trace id →
    (∀ r, b.phase.uncertain = some r → r.id ≠ id) →
    ∀ row ∈ s.table, row.id = id → row.claimOwner ≠ some o

/- Distinct owners, at most one for each attempt of the row, among them every owner
that handed it over, that holds it, or that may still hand it over. -/
def Covered (s : System) : Prop :=
  ∀ row ∈ s.table, ∃ owners : Finset Uuid, (owners.card : Int) ≤ row.attempts ∧
    (∀ o ∈ offers s.trace row.id, o ∈ owners) ∧
    (∀ o, row.claimOwner = some o → o ∈ owners) ∧
    ∀ o b, s.batches o = some b → ∀ r ∈ b.phase.toOffer, r.id = row.id → o ∈ owners

/- A row handed over is in the table. -/
def Present (s : System) : Prop :=
  ∀ id, ∀ o ∈ offers s.trace id, ∃ row ∈ s.table, row.id = id

/- No release takes effect on the error path while the record it is uncertain about
is pending under the owner. -/
def unwindsCleanly (s : System) : Action → Bool
  | .database owner reply _ =>
    match s.batches owner, reply with
    | some ⟨_, _, .unwind _ (some record)⟩, .ok =>
      !s.table.any (fun row => row.id == record.id && row.pendingOf owner)
    | some ⟨_, _, .unwind _ (some record)⟩, .lost _ =>
      !s.table.any (fun row => row.id == record.id && row.pendingOf owner)
    | _, _ => true
  | _ => true

theorem recordFailure_disowns {table : List OutboxRow} {relay : OutboxPublisher} {now : Timestamp}
    {record : OutboxRecord} {error : String}
    (waiting : ∀ r ∈ table, ∀ o, r.claimOwner = some o → r.status = .pending)
    (member : row' ∈ recordFailure relay table now record owner error)
    (same : row'.id = record.id) :
    row'.claimOwner ≠ some owner := by
  unfold recordFailure at member
  split at member
  · exact markFailed_disowns member same
  · exact reschedulePublish_disowns (fun r inside => waiting r inside owner) member same

theorem unwindsCleanly_spec {reply : Reply} {at_ : Timestamp}
    (clean : unwindsCleanly s (.database owner reply at_) = true)
    (known : s.batches owner = some batch) (effective : ∀ e, reply ≠ .failed e)
    {error : MessagingError} {r : OutboxRecord} (phase : batch.phase = .unwind error (some r))
    (inside : row ∈ s.table) (same : row.id = r.id) : row.pendingOf owner = false := by
  obtain ⟨relay, leased, _⟩ := batch
  subst phase
  have none_ : s.table.any (fun row => row.id == r.id && row.pendingOf owner) = false := by
    cases reply with
    | ok => simpa [unwindsCleanly, known] using clean
    | failed e => exact absurd rfl (effective e)
    | lost e => simpa [unwindsCleanly, known] using clean
  have unmatched := List.any_eq_false.mp none_ row inside
  simpa [same] using unmatched

theorem releasing_toOffer {phase : Phase} (releasing : phase.releasing = true) :
    phase.toOffer = [] := by
  cases phase <;> first | rfl | cases releasing

/-- An owner that releases a row has not handed it over. -/
theorem released_unoffered (resolved : Resolved s) {reply : Reply} {at_ : Timestamp}
    (clean : unwindsCleanly s (.database owner reply at_) = true)
    (known : s.batches owner = some batch) (effective : ∀ e, reply ≠ .failed e)
    (releasing : batch.phase.releasing = true) (inside : row ∈ s.table)
    (pending : row.status = .pending) (owned : row.claimOwner = some owner) :
    owner ∉ offers s.trace row.id := by
  intro offered
  have active : batch.phase.ended = false := by
    cases phase : batch.phase <;> simp_all [Phase.releasing, Phase.ended]
  refine resolved owner batch known active row.id offered ?_ row inside rfl owned
  intro r uncertain same
  cases phase : batch.phase with
  | unwind error offered' =>
    rw [phase] at uncertain
    change offered' = some r at uncertain
    subst uncertain
    have missed := unwindsCleanly_spec clean known effective phase inside same.symm
    rw [pendingOf_iff.mpr ⟨pending, owned⟩] at missed
    cases missed
  | release n =>
    rw [phase] at uncertain
    cases uncertain
  | _ =>
    rw [phase] at releasing
    cases releasing

section Step

variable [External]

/-- Where the uncertain record of a running batch comes from and how it is resolved. -/
theorem BatchMove.resolves (ledger : Ledger s) {phase : Phase}
    (moved : BatchMove s a s' owner batch phase) (active : phase.ended = false) :
    phase.uncertain = batch.phase.uncertain ∨
      (∃ bytes r rest n, batch.phase = .offer bytes r rest n ∧ phase = .publishing r rest n) ∨
      ∃ r, batch.phase.uncertain = some r ∧
        ∀ row ∈ s'.table, row.id = r.id → row.claimOwner ≠ some owner := by
  cases moved with
  | call c at_ _ called table =>
    cases call_calls called with
    | unprepared before => exact .inl (by rw [before, loop_uncertain]; rfl)
    | held before => exact .inl (by rw [before]; rfl)
    | lapsed => cases active
    | marked before =>
      refine .inr (.inr ⟨_, by rw [before]; rfl, fun row member same => ?_⟩)
      exact markPublished_disowns (table ▸ member) same
    | markedLate before =>
      refine .inr (.inr ⟨_, by rw [before]; rfl, fun row member same => ?_⟩)
      exact markPublished_disowns (table ▸ member) same
    | recorded before =>
      refine .inr (.inr ⟨_, by rw [before]; rfl, fun row member same => ?_⟩)
      exact recordFailure_disowns ledger.waiting (table ▸ member) same
    | released => cases active
    | unwound => cases active
  | error c reply at_ e _ _ called =>
    left
    cases call_calls called with
    | unprepared before => rw [before]; rfl
    | held before => rw [before]; rfl
    | lapsed before => rw [before]; rfl
    | marked before => rw [before]; rfl
    | markedLate before => rw [before]; rfl
    | recorded before => rw [before]; rfl
    | released before => rw [before]; rfl
    | unwound => cases active
  | publish bytes r rest n _ before => exact .inr (.inl ⟨bytes, r, rest, n, before, rfl⟩)
  | acknowledged r rest n _ before => exact .inl (by rw [before]; rfl)
  | refused r rest n e _ before => exact .inl (by rw [before]; rfl)
  | crash => cases active

theorem resolved_step (tracked : Tracked s) (ledger : Ledger s) (resolved : Resolved s)
    (taken : s.step a = some s') : Resolved s' := by
  intro o b' known' active id offered exempt row member same owned
  cases before : s.batches o with
  | none =>
    obtain ⟨relay, plan, reply, rfl, _⟩ := step_new_batch taken before known'
    rw [offers_unpublished taken (fun _ => by simp)] at offered
    obtain ⟨b, known⟩ := ledger.known id o offered
    cases before.symm.trans known
  | some b =>
    have inside := owned_origin tracked.apart taken before member owned
    obtain ⟨_, _, ⟨other, rfl⟩ | moved⟩ := step_batch taken before known'
    · exact resolved o _ before active id ((offers_other taken other).mp offered) exempt row inside
        same owned
    · have earlier := resolved o b before moved.active id
      rcases moved.offers taken with quiet | ⟨_, r, rest, n, phase, phase', grown⟩
      · rw [quiet id] at offered
        rcases moved.resolves ledger active with unchanged | ⟨_, r, rest, n, phase, _⟩ |
          ⟨r, certain, disowned⟩
        · exact earlier offered (unchanged ▸ exempt) row inside same owned
        · refine earlier offered (fun r' impossible => ?_) row inside same owned
          rw [phase] at impossible
          cases impossible
        · refine earlier offered (fun r' also here => ?_) row inside same owned
          obtain rfl := Option.some.inj (certain.symm.trans also)
          exact disowned row member (same.trans here.symm) owned
      · rw [grown id, if_neg (exempt r (by rw [phase']; rfl)), List.append_nil] at offered
        refine earlier offered (fun r' impossible => ?_) row inside same owned
        rw [phase] at impossible
        cases impossible

theorem present_step (tracked : Tracked s) (carried : Carried s) (present : Present s)
    (keeps : a.purges = false) (taken : s.step a = some s') : Present s' := by
  intro id o member
  have stays (inside : ∃ row ∈ s.table, row.id = id) : ∃ row ∈ s'.table, row.id = id := by
    obtain ⟨row, inside, rfl⟩ := inside
    obtain ⟨row', inside', same⟩ := staged_stays tracked keeps taken ⟨row, inside, rfl⟩
    exact ⟨row', inside', congrArg Staged.id same⟩
  apply stays
  rcases step_offers taken with same | ⟨p, b, bytes, r, rest, n, _, known, phase, grown⟩
  · exact present id o (same id ▸ member)
  · rw [grown id] at member
    rcases List.mem_append.mp member with old | new
    · exact present id o old
    · split at new
      · rename_i here
        have held : r ∈ b.phase.held := by
          rw [phase]
          exact List.mem_cons_self
        obtain ⟨row, inside, same⟩ := carried.held p b known r held
        exact ⟨row, inside, (congrArg Staged.id same).trans here⟩
      · cases new

/-- What a row's owners must keep covering when the row itself is not newly leased. -/
theorem covers_later (taken : s.step a = some s') {id : Uuid} {owners : Finset Uuid}
    (offered : ∀ o ∈ offers s.trace id, o ∈ owners)
    (ahead : ∀ o b, s.batches o = some b →
      ∀ r ∈ b.phase.toOffer, r.id = id → o ∈ owners) :
    ∀ o ∈ offers s'.trace id, o ∈ owners := by
  intro o member
  rcases step_offers taken with same | ⟨p, b, bytes, r, rest, n, _, known, phase, grown⟩
  · exact offered o (same id ▸ member)
  · rw [grown id] at member
    rcases List.mem_append.mp member with old | new
    · exact offered o old
    · split at new
      · rename_i here
        rw [List.mem_singleton.mp new]
        refine ahead p b known r ?_ here
        rw [phase]
        exact List.mem_cons_self
      · cases new

theorem toOffer_step (taken : s.step a = some s') {o : Uuid} {b b' : Batch}
    (known : s.batches o = some b) (known' : s'.batches o = some b') :
    b'.phase.toOffer.Sublist b.phase.toOffer := by
  obtain ⟨_, _, ⟨_, rfl⟩ | moved⟩ := step_batch taken known known'
  · exact List.Sublist.refl _
  · exact moved.toOffer

/-- A batch that may hand over a row it did not know of before has just leased it. -/
theorem new_toOffer (tracked : Tracked s) (taken : s.step a = some s') {o : Uuid} {b : Batch}
    (fresh : s.batches o = none) (known : s'.batches o = some b) {r : OutboxRecord}
    (member : r ∈ b.phase.toOffer) : ∃ row ∈ s'.table, row.id = r.id ∧
    row.claimOwner = some o := by
  obtain ⟨_, _, _, _, _, ⟨e, ended, _⟩ | ⟨_, _, _, spec, start⟩⟩ :=
    step_new_batch taken fresh known
  · rw [ended] at member
    cases member
  · rw [start, loop_toOffer] at member
    obtain ⟨r0, picked, rfl⟩ := spec.returned member
    have due := spec.due r0 picked
    obtain ⟨unpicked, _⟩ | ⟨_, leased⟩ := spec.image tracked.unique due.1
    · exact absurd picked unpicked
    · exact ⟨_, leased, rfl, rfl⟩

theorem covered_step (tracked : Tracked s) (carried : Carried s) (present : Present s)
    (resolved : Resolved s) (covered : Covered s) (clean : unwindsCleanly s a = true)
    (taken : s.step a = some s') : Covered s' := by
  intro row' member
  obtain ⟨row, inside, moved⟩ | ⟨record, startedAt, rfl, rfl, _, clear⟩ :=
    row_origin tracked.apart taken member
  · obtain ⟨owners, card, offered, held, ahead⟩ := covered row inside
    have sameId : row'.id = row.id := congrArg Staged.id moved.toStaged
    have offered' := covers_later taken offered ahead
    have ahead' : ∀ o b', s'.batches o = some b' → ∀ r ∈ b'.phase.toOffer, r.id = row.id →
        o ∈ owners ∨ row'.claimOwner = some o := by
      intro o b' known' r toOffer same
      cases known : s.batches o with
      | some b =>
        exact .inl (ahead o b known r ((toOffer_step taken known known').subset toOffer) same)
      | none =>
        obtain ⟨fresh, inside', same', owned⟩ := new_toOffer tracked taken known known' toOffer
        have one := (tracked_step tracked taken).same_id inside' member
          (same'.trans (same.trans sameId.symm))
        exact .inr (one ▸ owned)
    cases moved with
    | kept =>
      refine ⟨owners, card, offered', held, fun o b' known' r toOffer same => ?_⟩
      exact (ahead' o b' known' r toOffer same).elim id (held o)
    | leased o relay plan reply ms =>
      refine ⟨insert o owners, ?_, ?_, ?_, ?_⟩
      · have grown := Finset.card_insert_le o owners
        change ((insert o owners).card : Int) ≤ row.attempts + 1
        omega
      · exact fun p offers => Finset.mem_insert_of_mem (offered' p offers)
      · intro p owned
        exact Option.some.inj owned ▸ Finset.mem_insert_self _ _
      · intro p b' known' r toOffer same
        rcases ahead' p b' known' r toOffer same with old | owned
        · exact Finset.mem_insert_of_mem old
        · exact Option.some.inj owned ▸ Finset.mem_insert_self _ _
    | settled o reply at_ _ b called owned settles known effective changed =>
      have released_ : row'.claimOwner = none := settles.claimOwner
      have later : ∀ p b', s'.batches p = some b' →
          ∀ r ∈ b'.phase.toOffer, r.id = row.id →
          p ∈ owners := by
        intro p b' known' r toOffer same
        rcases ahead' p b' known' r toOffer same with old | impossible
        · exact old
        · rw [released_] at impossible
          cases impossible
      have unowned : ∀ p, row'.claimOwner = some p → p ∈ owners := by
        intro p impossible
        rw [released_] at impossible
        cases impossible
      cases changed with
      | released releasing pending =>
        subst called
        have fresh :=
          released_unoffered resolved clean known effective releasing inside pending owned
        refine ⟨owners.erase o, ?_, ?_, ?_, ?_⟩
        · have paid := Finset.card_erase_of_mem (held o owned)
          have some_ := Finset.card_pos.mpr ⟨o, held o owned⟩
          change ((owners.erase o).card : Int) ≤ max (row.attempts - 1) 0
          omega
        · intro p offers
          refine Finset.mem_erase.mpr ⟨?_, offered' p offers⟩
          rintro rfl
          rw [offers_unpublished taken (fun _ => by simp)] at offers
          exact fresh offers
        · intro p impossible
          cases impossible
        · intro p b' known' r toOffer same
          refine Finset.mem_erase.mpr ⟨?_, later p b' known' r toOffer same⟩
          rintro rfl
          have none_ := (toOffer_step taken known known').subset toOffer
          rw [releasing_toOffer releasing] at none_
          cases none_
      | unprepared => exact ⟨owners, card, offered', unowned, later⟩
      | published => exact ⟨owners, card, offered', unowned, later⟩
      | exhausted => exact ⟨owners, card, offered', unowned, later⟩
      | rescheduled => exact ⟨owners, card, offered', unowned, later⟩
  · -- a row just inserted shares its id with no record any batch holds
    have absent : ∀ row ∈ s.table, row.id ≠ record.id :=
      fun row inside => (conflicts_false.mp (clear row inside)).1
    refine ⟨∅, ?_, ?_, ?_, ?_⟩
    · exact le_min (Int.natCast_nonneg _) (by decide)
    · intro o offered
      rw [offers_unpublished taken (fun _ => by simp)] at offered
      obtain ⟨row, inside, same⟩ := present _ o offered
      exact absurd same (absent row inside)
    · intro o impossible
      cases impossible
    · intro o b known r toOffer same
      rw [step_other_batches taken (by simp [Action.owner])] at known
      obtain ⟨row, inside, staged⟩ := carried.held o b known r (toOffer_held toOffer)
      exact absurd ((congrArg Staged.id staged).trans same) (absent row inside)

/- Everything known of a run that purges nothing and unwinds cleanly. -/
structure Accounts (s : System) : Prop where
  tracked : Tracked s
  carried : Carried s
  ledger : Ledger s
  present : Present s
  resolved : Resolved s
  covered : Covered s

theorem accounts_initial (now : Timestamp) : Accounts (.initial now) where
  tracked := tracked_initial now
  carried := carried_initial now
  ledger := ledger_initial now
  present := by
    intro id o member
    cases member
  resolved := by
    intro o b known
    cases known
  covered := by
    intro row member
    cases member

/- Runs in which no row is purged and every error path unwinds cleanly. -/
def fair (s : System) (a : Action) : Bool := !a.purges && unwindsCleanly s a

theorem accounts_step (accounts : Accounts s) (allowed : fair s a = true)
    (taken : s.step a = some s') : Accounts s' := by
  obtain ⟨tracked, carried, ledger, present, resolved, covered⟩ := accounts
  obtain ⟨stays, clean⟩ := Bool.and_eq_true_iff.mp allowed
  have keeps : a.purges = false := by simpa using stays
  exact ⟨tracked_step tracked taken, carried_step tracked carried keeps taken,
    ledger_step tracked ledger taken, present_step tracked carried present keeps taken,
    resolved_step tracked ledger resolved taken,
    covered_step tracked carried present resolved covered clean taken⟩

theorem accounts_of_reaches {now : Timestamp}
    (reached : Reaches System.step (fun x a => fair x a = true) (.initial now) s) : Accounts s :=
  reached.invariant Accounts (accounts_initial now)
    (fun _ _ _ before allowed taken => accounts_step before allowed taken)

theorem Accounts.offers_le (accounts : Accounts s) (inside : row ∈ s.table) :
    ((offers s.trace row.id).length : Int) ≤ row.attempts := by
  obtain ⟨owners, card, offered, _⟩ := accounts.covered row inside
  have subset : (offers s.trace row.id).toFinset ⊆ owners := by
    intro o member
    exact offered o (List.mem_toFinset.mp member)
  have counted := Finset.card_le_card subset
  rw [List.toFinset_card_of_nodup (accounts.ledger.once row.id)] at counted
  omega

/-- Stored attempts never fall below the publish calls of the row, and what a release
takes back was not handed over under that claim. -/
theorem attempts_cover_offers {now : Timestamp}
    (reached : Reaches System.step (fun x a => fair x a = true) (.initial now) s) :
    (∀ row ∈ s.table, ((offers s.trace row.id).length : Int) ≤ row.attempts) ∧
    ∀ owner reply at_ s', fair s (.database owner reply at_) = true →
      s.step (.database owner reply at_) = some s' → ∀ row ∈ s.table, ∀ row' ∈ s'.table,
        row'.id = row.id → row'.attempts < row.attempts → owner ∉ offers s.trace row.id := by
  have accounts := accounts_of_reaches reached
  refine ⟨fun row inside => accounts.offers_le inside, ?_⟩
  intro owner reply at_ s' allowed taken row inside row' member same lowered
  obtain ⟨_, clean⟩ := Bool.and_eq_true_iff.mp allowed
  obtain ⟨r, before, moved⟩ | ⟨_, _, impossible, _⟩ :=
    row_origin accounts.tracked.apart taken member
  · obtain rfl := accounts.tracked.same_id before inside
      ((congrArg Staged.id moved.toStaged).symm.trans same)
    cases moved with
    | kept => exact absurd lowered (Int.lt_irrefl _)
    | leased => contradiction
    | settled o reply' at' _ b called owned settles known effective changed =>
      cases called
      cases changed with
      | released releasing pending =>
        exact released_unoffered accounts.resolved clean known effective releasing
          inside pending owned
      | _ => exact absurd lowered (Int.lt_irrefl _)
  · cases impossible

end Step

section Sample

attribute [local instance] Sample.external

open Sample

/- The broker takes the row, the mark fails, and the error path releases the claim. -/
def undercountedRun : List Action :=
  [.enqueue order1 0, .claim 7 .new plan .ok, .database 7 .ok 0, .publish 7,
    .append (message order1), .answer 7 (.ok ()), .database 7 (.failed "connection reset") 0,
    .database 7 .ok 0]

theorem attempts_undercounted : ∃ s, run System.step (.initial 0) undercountedRun = some s ∧
    ¬ ∀ row ∈ s.table, ((offers s.trace row.id).length : Int) ≤ row.attempts := by
  have counts : (run System.step (.initial 0) undercountedRun).map (fun s =>
      s.table.map (fun row => (((offers s.trace row.id).length : Int), row.attempts))) =
      some [(1, 0)] := by decide +kernel
  obtain ⟨s, taken, rows⟩ := Option.map_eq_some_iff.mp counts
  refine ⟨s, taken, ?_⟩
  intro holds
  have found : ((1 : Int), (0 : Int)) ∈
      s.table.map (fun row => (((offers s.trace row.id).length : Int), row.attempts)) := by
    rw [rows]
    exact List.mem_cons_self
  obtain ⟨row, inside, same⟩ := List.mem_map.mp found
  obtain ⟨published, stored⟩ := Prod.mk.inj same
  have bound := holds row inside
  omega

/- The first publish fails; the row is rescheduled and the second row released. -/
def refusedRun : List Action :=
  [.enqueue order1 0, .enqueue order2 0, .claim 7 .new plan .ok, .database 7 .ok 0, .publish 7,
    .answer 7 (.error (.transport "no responders")), .database 7 .ok 0, .database 7 .ok 0]

theorem attempts_cover_offers_refused : ∃ s,
    run (guarded System.step fair) (.initial 0) refusedRun = some s ∧
      ∀ row ∈ s.table, ((offers s.trace row.id).length : Int) ≤ row.attempts := by
  have runs : (run (guarded System.step fair) (.initial 0) refusedRun).isSome = true := by
    decide +kernel
  obtain ⟨s, taken⟩ := Option.isSome_iff_exists.mp runs
  exact ⟨s, taken, (attempts_cover_offers (reaches_of_guarded taken)).1⟩

end Sample

end FiduciaMessaging
