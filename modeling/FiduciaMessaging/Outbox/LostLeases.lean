import FiduciaMessaging.Outbox.DoublePublish

/-! The lost-lease counter. It is raised after a mark that matches no row, and also before a
publish that is not made because the lease has run out. -/
namespace FiduciaMessaging

open Runs

/- The row of a mark that matched nothing. -/
def Event.lateOf (owner : Uuid) : Event → Option Uuid
  | .marked o record held => if o = owner ∧ held = false then some record.id else none
  | _ => none

/- The rows whose mark by a batch matched nothing, in order. -/
def lateMarks (trace : List Event) (owner : Uuid) : List Uuid :=
  trace.filterMap (Event.lateOf owner)

/- The record a batch probes its lease on before it hands it over. -/
def Batch.probing [External] (b : Batch) : Option OutboxRecord :=
  match b.phase with
  | .row record _ _ => if record.prepare.isOk then some record else none
  | _ => none

/- An answered probe of the batch finds the lease live. -/
def probesLive [External] (owner : Uuid) (s : System) : Action → Bool
  | .database o .ok _ => o != owner ||
    ((s.batches o).bind Batch.probing).all (fun r => claimStillHeld s.table s.now r.id o)
  | _ => true

def lapsesOf [External] (owner : Uuid) (s : System) (a : Action) (_ : System) : Nat :=
  if probesLive owner s a then 0 else 1

/- What a step of the batch adds to `lost_lease_publishes()`. -/
def lostLeasesOf (owner : Uuid) (s : System) (a : Action) (s' : System) : Nat :=
  if a.owner = some owner then s'.lostLeasePublishes - s.lostLeasePublishes else 0

/- The rows of a batch published without ownership: `publish` returned `Ok`, and the mark
that followed matched no row. -/
def unownedPublishes (trace : List Event) (owner : Uuid) (b : Batch) : Nat :=
  b.leased.countP (fun r =>
    (acks trace r.id).contains owner && trace.any (Event.marks owner r.id false))

variable {s s' : System} {a : Action} {o p id : Uuid}

theorem lateMarks_append (first second : List Event) (o : Uuid) :
    lateMarks (first ++ second) o = lateMarks first o ++ lateMarks second o := List.filterMap_append

theorem mem_lateMarks {trace : List Event} :
    id ∈ lateMarks trace o ↔ trace.any (Event.marks o id false) = true := by
  rw [List.any_eq_true]
  constructor
  · intro member
    obtain ⟨e, inside, found⟩ := List.mem_filterMap.mp member
    refine ⟨e, inside, ?_⟩
    cases e with
    | marked owner record held =>
      simp only [Event.lateOf] at found
      split at found
      · rename_i late
        obtain ⟨rfl, rfl⟩ := late
        obtain rfl := Option.some.inj found
        simp [Event.marks]
      · cases found
    | _ => cases found
  · rintro ⟨e, inside, marks⟩
    refine List.mem_filterMap.mpr ⟨e, inside, ?_⟩
    cases e with
    | marked owner record held =>
      simp only [Event.marks, Bool.and_eq_true, beq_iff_eq] at marks
      obtain ⟨⟨rfl, rfl⟩, rfl⟩ := marks
      exact if_pos ⟨rfl, rfl⟩
    | _ => cases marks

/- A batch is late on each of its rows once at most, and only after an acknowledgement. -/
structure LateOnce (s : System) : Prop where
  fresh : ∀ o, s.batches o = none → lateMarks s.trace o = []
  once : ∀ o b, s.batches o = some b → (lateMarks s.trace o ++ b.phase.held.map (·.id)).Nodup
  within : ∀ o b, s.batches o = some b →
    ∀ id ∈ lateMarks s.trace o, id ∈ b.leased.map (·.id)
  acked : ∀ o, ∀ id ∈ lateMarks s.trace o, o ∈ acks s.trace id
  turned : ∀ o b, s.batches o = some b → ∀ r rest n, b.phase = .mark r rest n →
    o ∈ acks s.trace r.id
  distinct : ∀ o b, s.batches o = some b → (b.leased.map (·.id)).Nodup

theorem lateOnce_initial (now : Timestamp) : LateOnce (.initial now) where
  fresh := fun _ _ => rfl
  once := by
    intro o b known
    cases known
  within := by
    intro o b known
    cases known
  acked := by
    intro o id member
    cases member
  turned := by
    intro o b known
    cases known
  distinct := by
    intro o b known
    cases known

section Step

variable [External]

/-- A step adds no late mark, or the one its batch has just made. -/
theorem step_late (taken : s.step a = some s') :
    (∀ p, lateMarks s'.trace p = lateMarks s.trace p) ∨
      ∃ o at_ b r rest n, a = .database o .ok at_ ∧ s.batches o = some b ∧
        b.phase = .mark r rest n ∧ s'.batches o = some { b with phase := .loop rest n } ∧
        ∀ p, lateMarks s'.trace p = lateMarks s.trace p ++ if o = p then [r.id] else [] := by
  have silent {events : List Event} (none_ : ∀ p, lateMarks events p = []) (p : Uuid) :
      lateMarks (s.trace ++ events) p = lateMarks s.trace p := by
    rw [lateMarks_append, none_, List.append_nil]
  cases step_moves taken with
  | enqueued => exact .inl (silent (fun _ => rfl))
  | published => exact .inl (silent (fun _ => rfl))
  | acknowledged => exact .inl (silent (fun _ => rfl))
  | @called owner at_ b c known called =>
    cases call_calls called with
    | marked => exact .inl (silent (fun _ => by simp [lateMarks, Event.lateOf]))
    | @markedLate r rest n phase _ =>
      refine .inr ⟨owner, at_, b, r, rest, n, rfl, known, phase, if_pos rfl, ?_⟩
      intro p
      rw [lateMarks_append]
      by_cases same : owner = p <;> simp [lateMarks, Event.lateOf, same]
    | _ => exact .inl (silent (fun _ => rfl))
  | _ => exact .inl (fun _ => rfl)

/-- The late marks of a batch and its lapsed probes account for what it adds to the counter. -/
theorem lost_balance (taken : s.step a = some s') :
    (lateMarks s'.trace o).length + lapsesOf o s a s' =
      (lateMarks s.trace o).length + lostLeasesOf o s a s' := by
  -- a step that does not reach the counter probes nothing that has lapsed
  have still (live : probesLive o s a = true) (same : s'.lostLeasePublishes = s.lostLeasePublishes)
      (late : lateMarks s'.trace o = lateMarks s.trace o) :
      (lateMarks s'.trace o).length + lapsesOf o s a s' =
        (lateMarks s.trace o).length + lostLeasesOf o s a s' := by
    rw [late]
    simp [lapsesOf, live, lostLeasesOf, same]
  have silent {events : List Event} (none_ : lateMarks events o = []) :
      lateMarks (s.trace ++ events) o = lateMarks s.trace o := by
    rw [lateMarks_append, none_, List.append_nil]
  cases step_moves taken with
  | @idle a none_ =>
    cases a with
    | database => cases none_
    | _ => exact still rfl rfl rfl
  | enqueued => exact still rfl rfl (silent rfl)
  | published => exact still rfl rfl (silent rfl)
  | acknowledged => exact still rfl rfl (silent rfl)
  | @called owner at_ b c known called =>
    by_cases mine : owner = o
    · subst mine
      simp only [lateMarks_append, List.length_append, lostLeasesOf, Action.owner, if_true,
        Nat.add_sub_cancel_left, lapsesOf, probesLive, known, Option.bind_some, bne_self_eq_false,
        Bool.false_or, Batch.probing]
      cases call_calls called with
      | unprepared phase prepared => simp [phase, prepared, Except.isOk, Except.toBool, lateMarks]
      | held phase prepared live =>
        simp [phase, prepared, live, Except.isOk, Except.toBool, lateMarks]
      | lapsed phase prepared dead =>
        simp [phase, prepared, dead, Except.isOk, Except.toBool, lateMarks, Event.lateOf]
      | marked phase => simp [phase, lateMarks, Event.lateOf]
      | markedLate phase => simp [phase, lateMarks, Event.lateOf]
      | recorded phase => simp [phase, lateMarks]
      | released phase => simp [phase, lateMarks]
      | unwound phase => simp [phase, lateMarks]
    · have live : probesLive o s (.database owner .ok at_) = true := by simp [probesLive, mine]
      have none_ : lateMarks c.events o = [] := by
        cases call_calls called <;> simp [lateMarks, Event.lateOf, mine]
      simp [lapsesOf, live, lostLeasesOf, Action.owner, mine, lateMarks_append, none_]
  | _ => exact still rfl rfl rfl

theorem acks_step (taken : s.step a = some s') (member : o ∈ acks s.trace id) :
    o ∈ acks s'.trace id := by
  obtain ⟨events, grown, _⟩ := step_trace taken
  rw [acks, grown, List.filterMap_append]
  exact List.mem_append_left _ member

/-- A batch turns to the mark of a row with its acknowledgement. -/
theorem turned_step (taken : s.step a = some s') {b b' : Batch} (known : s.batches o = some b)
    (known' : s'.batches o = some b') {r : OutboxRecord} {rest : List OutboxRecord} {n : Nat}
    (phase : b'.phase = .mark r rest n) : b.phase = .mark r rest n ∨
    o ∈ acks s'.trace r.id := by
  obtain ⟨_, _, ⟨_, rfl⟩ | moved⟩ := step_batch taken known known'
  · exact .inl phase
  · rw [phase] at moved
    generalize target : Phase.mark r rest n = phase' at moved
    cases moved with
    | call c at_ _ called => exact absurd target.symm (call_not_marking called).1
    | error c reply at_ e _ _ called => exact absurd target.symm ((call_not_marking called).2 _)
    | acknowledged r0 rest0 n0 called before =>
      cases target
      subst called
      obtain ⟨b0, r0, rest0, n0, known0, before0, ⟨_, _, rfl⟩ | ⟨_, impossible, _⟩⟩ :=
        answer_cases (show s.answer o (.ok ()) = some s' from taken)
      · obtain rfl := Option.some.inj (known.symm.trans known0)
        cases before.symm.trans before0
        exact .inr (mem_acks.mpr ⟨r, List.mem_append_right _ List.mem_cons_self, rfl⟩)
      · cases impossible
    | _ => cases target

/-- A batch that is claimed now has no late mark yet. -/
theorem fresh_lateMarks (late : LateOnce s) (taken : s.step a = some s')
    (fresh : s.batches o = none) : lateMarks s'.trace o = [] := by
  rcases step_late taken with same | ⟨p, _, b, r, rest, n, _, known, _, _, grown⟩
  · rw [same o, late.fresh o fresh]
  · have other : p ≠ o := by
      rintro rfl
      cases fresh.symm.trans known
    rw [grown o, if_neg other, List.append_nil, late.fresh o fresh]

theorem lateOnce_step (tracked : Tracked s) (ledger : Ledger s) (late : LateOnce s)
    (taken : s.step a = some s') : LateOnce s' where
  fresh := by
    intro o fresh'
    have fresh : s.batches o = none := by
      cases known : s.batches o with
      | none => rfl
      | some b =>
        obtain ⟨b', known', _⟩ := step_known_batch taken known
        cases fresh'.symm.trans known'
    exact fresh_lateMarks late taken fresh
  once := by
    intro o b' known'
    rcases step_late taken with same |
      ⟨p, _, b, r, rest, n, called, known, phase, looped, grown⟩
    · rw [same o]
      cases before : s.batches o with
      | none =>
        rw [late.fresh o before]
        obtain ⟨_, _, _, _, _, ⟨e, ended, _⟩ | ⟨_, _, _, spec, start⟩⟩ :=
          step_new_batch taken before known'
        · rw [ended]
          exact List.nodup_nil
        · rw [start, loop_held]
          exact spec.records_distinct tracked.unique
      | some b =>
        obtain ⟨_, _, ⟨_, rfl⟩ | moved⟩ := step_batch taken before known'
        · exact late.once o _ before
        · exact (late.once o b before).sublist ((moved.held.map _).append_left _)
    · by_cases mine : p = o
      · -- the row just marked moves from the rows held to the late ones
        subst mine
        obtain rfl := Option.some.inj (looped.symm.trans known')
        have before := late.once p b known
        rw [phase] at before
        rw [grown p, if_pos rfl, loop_held, List.append_assoc]
        exact before
      · have other : a.owner ≠ some o := by
          rw [called]
          exact fun same => mine (Option.some.inj same)
        rw [grown o, if_neg mine, List.append_nil]
        exact late.once o b' ((step_other_batches taken other).symm.trans known')
  within := by
    intro o b' known' id member
    cases before : s.batches o with
    | none =>
      rw [fresh_lateMarks late taken before] at member
      cases member
    | some b =>
      obtain ⟨_, leased, _⟩ := step_batch taken before known'
      rw [leased]
      rcases step_late taken with same | ⟨p, _, b0, r, rest, n, _, known, phase, _, grown⟩
      · exact late.within o b before id (same o ▸ member)
      · rw [grown o] at member
        rcases List.mem_append.mp member with old | new
        · exact late.within o b before id old
        · split at new
          · rename_i mine
            subst mine
            obtain rfl := Option.some.inj (known.symm.trans before)
            have held : r ∈ b0.phase.held := by
              rw [phase]
              exact List.mem_cons_self
            rw [List.mem_singleton.mp new]
            exact List.mem_map.mpr ⟨r, ledger.within p b0 known r held, rfl⟩
          · cases new
  acked := by
    intro o id member
    rcases step_late taken with same | ⟨p, _, b, r, rest, n, _, known, phase, _, grown⟩
    · exact acks_step taken (late.acked o id (same o ▸ member))
    · rw [grown o] at member
      rcases List.mem_append.mp member with old | new
      · exact acks_step taken (late.acked o id old)
      · split at new
        · rename_i mine
          rw [List.mem_singleton.mp new]
          exact acks_step taken (mine ▸ late.turned p b known r rest n phase)
        · cases new
  turned := by
    intro o b' known' r rest n phase
    cases before : s.batches o with
    | none =>
      rcases step_new_phase taken before known' with ⟨_, start⟩ | ⟨_, _, start⟩ <;>
        cases start.symm.trans phase
    | some b =>
      rcases turned_step taken before known' phase with old | acked
      · exact acks_step taken (late.turned o b before r rest n old)
      · exact acked
  distinct := by
    intro o b' known'
    cases before : s.batches o with
    | none =>
      obtain ⟨_, _, _, _, _, ⟨e, _, none_⟩ | ⟨_, _, _, spec, _⟩⟩ :=
        step_new_batch taken before known'
      · rw [none_]
        exact List.nodup_nil
      · exact spec.records_distinct tracked.unique
    | some b =>
      obtain ⟨_, leased, _⟩ := step_batch taken before known'
      exact leased ▸ late.distinct o b before

theorem lateOnce_of_reaches {ok : System → Action → Prop} {now : Timestamp}
    (reached : Reaches System.step ok (.initial now) s) : LateOnce s :=
  reached.invariant_given LateOnce
    (fun _ before => (⟨tracked_of_reaches (tracked_initial now) before,
      ledger_of_reaches (tracked_initial now) (ledger_initial now) before⟩ :
        Tracked _ ∧ Ledger _))
    (lateOnce_initial now)
    (fun _ _ _ known before _ taken => lateOnce_step known.1 known.2 before taken)

omit [External] in
/-- The late marks of a batch are its rows published without ownership. -/
theorem unowned_late (late : LateOnce s) {b : Batch} (known : s.batches o = some b) :
    unownedPublishes s.trace o b = (lateMarks s.trace o).length := by
  have distinct : (lateMarks s.trace o).Nodup := (List.nodup_append'.mp (late.once o b known)).1
  have same : ((b.leased.filter (fun r => (acks s.trace r.id).contains o &&
      s.trace.any (Event.marks o r.id false))).map (·.id)).Perm (lateMarks s.trace o) := by
    apply (List.perm_ext_iff_of_nodup ((late.distinct o b known).sublist
      (List.filter_sublist.map _)) distinct).mpr
    intro id
    simp only [List.mem_map, List.mem_filter, Bool.and_eq_true, ← mem_lateMarks]
    constructor
    · rintro ⟨r, ⟨_, _, marked⟩, rfl⟩
      exact marked
    · intro member
      obtain ⟨r, inside, rfl⟩ := List.mem_map.mp (late.within o b known id member)
      exact ⟨r, ⟨inside, List.contains_iff_mem.mpr (late.acked o r.id member), member⟩, rfl⟩
  rw [unownedPublishes, List.countP_eq_length_filter, ← same.length_eq, List.length_map]

/-- What a batch adds to the counter is the number of rows it published without ownership
exactly if each of its answered probes found the lease live. A probe that finds it lapsed adds
one for a row that is not handed over. -/
theorem lost_leases_exact_iff {now : Timestamp} {as : List Action} {b : Batch}
    (taken : run System.step (.initial now) as = some s) (known : s.batches o = some b) :
    accumulated System.step (lostLeasesOf o) (.initial now) as = unownedPublishes s.trace o b ↔
      run (guarded System.step (probesLive o)) (.initial now) as = some s := by
  have late :=
    lateOnce_of_reaches (reaches_of_run (fun _ _ => True) as taken (fun _ _ _ => trivial))
  have balance : (lateMarks s.trace o).length +
      accumulated System.step (lapsesOf o) (.initial now) as =
      0 + accumulated System.step (lostLeasesOf o) (.initial now) as :=
    accumulated_balance (fun x => (lateMarks x.trace o).length)
      (fun x a y moved => lost_balance moved) taken
  have refuses : ∀ x a y, x.step a = some y →
      (lapsesOf o x a y = 0 ↔ probesLive o x a = true) := by
    intro x a y _
    simp [lapsesOf]
  rw [unowned_late late known, ← accumulated_eq_zero_iff refuses taken]
  omega

end Step

section Sample

attribute [local instance] Sample.external

open Sample

/- The first publish is slow, and the lease has run out when the second row is probed. -/
def overrunRun : List Action :=
  [.enqueue order1 0, .enqueue order2 0, .tick 1, .claim 7 .new plan .ok, .database 7 .ok 0,
    .publish 7, .append (message order1), .answer 7 (.ok ()), .database 7 .ok 0,
    .tick 400000000, .database 7 .ok 0]

theorem skipped_row_counted : ∃ s b, run System.step (.initial 0) overrunRun = some s ∧
    s.batches 7 = some b ∧ offers s.trace order2.id = [] ∧ unownedPublishes s.trace 7 b = 0 ∧
    accumulated System.step (lostLeasesOf 7) (.initial 0) overrunRun = 1 := by
  have ends : (run System.step (.initial 0) overrunRun).bind (fun s => (s.batches 7).map (fun b =>
      (offers s.trace order2.id, unownedPublishes s.trace 7 b))) = some ([], 0) := by
    decide +kernel
  obtain ⟨s, taken, view⟩ := Option.bind_eq_some_iff.mp ends
  obtain ⟨b, known, view⟩ := Option.map_eq_some_iff.mp view
  obtain ⟨unoffered, owned⟩ := Prod.mk.inj view
  exact ⟨s, b, taken, known, unoffered, owned, by decide +kernel⟩

/- The first batch publishes the row after its lease, and another one has marked it. -/
theorem lost_leases_exact_iff_late : ∃ s b,
    run System.step (.initial 0) ([.enqueue order1 0, .tick 1] ++ lapsedPublishRun) = some s ∧
    s.batches 1 = some b ∧ unownedPublishes s.trace 1 b = 1 ∧
    accumulated System.step (lostLeasesOf 1) (.initial 0)
      ([.enqueue order1 0, .tick 1] ++ lapsedPublishRun) = 1 := by
  have ends : (run (guarded System.step (probesLive 1)) (.initial 0)
      ([.enqueue order1 0, .tick 1] ++ lapsedPublishRun)).bind (fun s => (s.batches 1).map (fun b =>
        unownedPublishes s.trace 1 b)) = some 1 := by
    decide +kernel
  obtain ⟨s, live, view⟩ := Option.bind_eq_some_iff.mp ends
  obtain ⟨b, known, unowned⟩ := Option.map_eq_some_iff.mp view
  have taken : run System.step (.initial 0) ([.enqueue order1 0, .tick 1] ++ lapsedPublishRun) =
      some s := run_of_guarded live
  have exact_ := (lost_leases_exact_iff taken known).mpr live
  exact ⟨s, b, taken, known, unowned, exact_.trans unowned⟩

end Sample

end FiduciaMessaging
