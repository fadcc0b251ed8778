import FiduciaMessaging.Outbox.Ledger

/-! Double publishes of one row. While nothing fails, at most one of the batches that
got `Ok` for a row marks it, and every other one counts a lost lease. -/
namespace FiduciaMessaging

open Runs RowSet

def Event.ackerOf (id : Uuid) : Event → Option Uuid
  | .acknowledged owner record => if record.id = id then some owner else none
  | _ => none

/- The owners for which `Publisher::publish` returned `Ok` for a row, in order. -/
def acks (trace : List Event) (id : Uuid) : List Uuid := trace.filterMap (Event.ackerOf id)

/- The batch's `mark_published` returned `held` for the row. -/
def Event.marks (owner id : Uuid) (held : Bool) : Event → Bool
  | .marked o record returned => o == owner && record.id == id && returned == held
  | _ => false

def Event.recordsLostLease : Event → Bool
  | .lostLease _ _ => true
  | _ => false

def Event.recordsLostLeaseOf (owner id : Uuid) : Event → Bool
  | .lostLease o record => o == owner && record.id == id
  | _ => false

/- A row the batch adds to its total. -/
def Event.adds (owner : Uuid) : Event → Bool
  | .marked o _ held => o == owner && held
  | _ => false

/- The batch counts the row as published. -/
def countsRow (trace : List Event) (id owner : Uuid) : Bool :=
  trace.any (Event.marks owner id true)

/- The batch's mark found the row no longer its own, and it counted the lost lease. -/
def countsLoss (trace : List Event) (id owner : Uuid) : Bool :=
  trace.any (Event.marks owner id false) && trace.any (Event.recordsLostLeaseOf owner id)

/- What the batch would return now. -/
def Phase.total : Phase → Option Nat
  | .row _ _ published => some published
  | .offer _ _ _ published => some published
  | .publishing _ _ published => some published
  | .mark _ _ published => some published
  | .fail _ _ published => some published
  | .release published => some published
  | .done (.ok published) => some published
  | _ => none

@[simp] theorem loop_total (rest : List OutboxRecord) (n : Nat) :
    (Phase.loop rest n).total = some n := by
  cases rest <;> rfl

/- No worker crashes and no database call fails. -/
def Answered (_ : System) : Action → Prop
  | .claim _ _ _ reply => reply = .ok
  | .database _ reply _ => reply = .ok
  | .crash _ => False
  | _ => True

/- The row with this id is in the table. -/
def System.holds (s : System) (id : Uuid) : Prop := ∃ row ∈ s.table, row.id = id

variable {s s' : System} {a : Action} {id o p : Uuid} {owners : List Uuid}

theorem markPublished_found {table : List OutboxRow} {at_ : Timestamp}
    (held : (markPublished table id o at_).2 = true) :
    ∃ row ∈ table, row.id = id ∧ row.claimOwner = some o := by
  have one : affected (OutboxRow.ownedAs id o) table = 1 := beq_iff_eq.mp held
  obtain ⟨row, inside, owned⟩ : ∃ row ∈ table, row.ownedAs id o = true := by
    apply List.countP_pos_iff.mp
    rw [show table.countP (OutboxRow.ownedAs id o) = 1 from one]
    exact Nat.one_pos
  exact ⟨row, inside, ownedAs_iff.mp owned⟩

theorem mem_acks {trace : List Event} :
    o ∈ acks trace id ↔ ∃ r, Event.acknowledged o r ∈ trace ∧ r.id = id := by
  constructor
  · intro member
    obtain ⟨e, inside, found⟩ := List.mem_filterMap.mp member
    cases e with
    | acknowledged owner record =>
      simp only [Event.ackerOf] at found
      split at found
      · rename_i same
        exact ⟨record, Option.some.inj found ▸ inside, same⟩
      · cases found
    | _ => cases found
  · rintro ⟨r, inside, same⟩
    exact List.mem_filterMap.mpr ⟨_, inside, if_pos same⟩

theorem countsRow_iff {trace : List Event} :
    countsRow trace id o = true ↔ ∃ r, Event.marked o r true ∈ trace ∧ r.id = id := by
  constructor
  · intro counts
    obtain ⟨e, inside, marks⟩ := List.any_eq_true.mp counts
    cases e with
    | marked owner record returned =>
      simp only [Event.marks, Bool.and_eq_true, beq_iff_eq] at marks
      obtain ⟨⟨rfl, same⟩, rfl⟩ := marks
      exact ⟨record, inside, same⟩
    | _ => cases marks
  · rintro ⟨r, inside, rfl⟩
    exact List.any_eq_true.mpr ⟨_, inside, by simp [Event.marks]⟩

/- What the history says of every batch: an acknowledgement is followed by a mark that
counts or a mark that is late, and the totals are those of the marks. -/
structure Accounted (s : System) : Prop where
  acked : ∀ id, ∀ o ∈ acks s.trace id,
    (∃ b r rest n, s.batches o = some b ∧ b.phase = .mark r rest n ∧ r.id = id) ∨
      countsRow s.trace id o = true ∨ countsLoss s.trace id o = true
  unknown : ∀ o, s.batches o = none → s.trace.countP (Event.adds o) = 0
  total : ∀ o b, s.batches o = some b → ∀ n, b.phase.total = some n →
    s.trace.countP (Event.adds o) = n
  lost : s.lostLeasePublishes = s.trace.countP Event.recordsLostLease

theorem accounted_initial (now : Timestamp) : Accounted (.initial now) where
  acked := by
    intro id o member
    cases member
  unknown := fun _ _ => rfl
  total := by
    intro o b known
    cases known
  lost := rfl

/- Among `owners` one batch at most has counted the row, and then none holds it. -/
structure CountedOnce (owners : List Uuid) (id : Uuid) (s : System) : Prop where
  once : ∀ o ∈ owners, ∀ p ∈ owners, countsRow s.trace id o = true →
    countsRow s.trace id p = true → o = p
  cleared : ∀ o ∈ owners, countsRow s.trace id o = true → ∀ row ∈ s.table, row.id = id →
    ∀ p ∈ owners, row.claimOwner ≠ some p

section Step

variable [External]

/-- A mark is recorded by the call that makes it, with what the statement returned. -/
theorem step_marked (taken : s.step a = some s') {r : OutboxRecord} {held : Bool}
    (member : Event.marked o r held ∈ s'.trace) : Event.marked o r held ∈ s.trace ∨
      ∃ at_ b rest n, a = .database o .ok at_ ∧ s.batches o = some b ∧
        b.phase = .mark r rest n ∧ (markPublished s.table r.id o at_).2 = held ∧
        s'.table = (markPublished s.table r.id o at_).1 := by
  obtain ⟨events, grown, happened⟩ := step_trace taken
  rcases List.mem_append.mp (grown ▸ member) with old | new
  · exact .inl old
  · cases happened with
    | silent => cases new
    | staged => cases List.mem_singleton.mp new
    | offered => cases List.mem_singleton.mp new
    | acknowledged => cases List.mem_singleton.mp new
    | @called owner at_ b c known called =>
      obtain ⟨b', c', known', called',
          ⟨_, rfl⟩ | ⟨_, impossible, _⟩ | ⟨_, impossible, _⟩⟩ :=
        database_cases (show s.database owner .ok at_ = some s' from taken)
      · obtain rfl := Option.some.inj (known.symm.trans known')
        obtain rfl := Option.some.inj (called.symm.trans called')
        cases call_calls called with
        | marked phase found =>
          obtain ⟨rfl, rfl, rfl⟩ := Event.marked.inj (List.mem_singleton.mp new)
          exact .inr ⟨at_, b, _, _, rfl, known, phase, found, rfl⟩
        | markedLate phase missing =>
          rcases List.mem_cons.mp new with first | second
          · obtain ⟨rfl, rfl, rfl⟩ := Event.marked.inj first
            exact .inr ⟨at_, b, _, _, rfl, known, phase, missing, rfl⟩
          · cases List.mem_singleton.mp second
        | lapsed => cases List.mem_singleton.mp new
        | _ => cases new
      · cases impossible
      · cases impossible

/-- A batch counts a row at the mark that finds the row still its own. -/
theorem step_countsRow (taken : s.step a = some s') (counts : countsRow s'.trace id o = true) :
    countsRow s.trace id o = true ∨ ∃ at_ b r rest n, a = .database o .ok at_ ∧
      s.batches o = some b ∧ b.phase = .mark r rest n ∧ r.id = id ∧
      (markPublished s.table id o at_).2 = true ∧
      s'.table = (markPublished s.table id o at_).1 := by
  obtain ⟨r, member, rfl⟩ := countsRow_iff.mp counts
  rcases step_marked taken member with old |
    ⟨at_, b, rest, n, called, known, phase, held, table⟩
  · exact .inl (countsRow_iff.mpr ⟨r, old, rfl⟩)
  · exact .inr ⟨at_, b, r, rest, n, called, known, phase, rfl, held, table⟩

/-- A step keeps what the history already says. -/
theorem countsRow_step (taken : s.step a = some s') (counts : countsRow s.trace id o = true) :
    countsRow s'.trace id o = true := by
  obtain ⟨events, grown, _⟩ := step_trace taken
  rw [countsRow, grown, List.any_append, Bool.or_eq_true]
  exact .inl counts

theorem countsLoss_step (taken : s.step a = some s') (counts : countsLoss s.trace id o = true) :
    countsLoss s'.trace id o = true := by
  obtain ⟨events, grown, _⟩ := step_trace taken
  obtain ⟨marked, recorded⟩ := Bool.and_eq_true_iff.mp counts
  rw [countsLoss, grown, List.any_append, List.any_append, marked, recorded]
  rfl

/-- An acknowledgement is recorded as the batch turns to its mark. -/
theorem step_acks (taken : s.step a = some s') (member : o ∈ acks s'.trace id) :
    o ∈ acks s.trace id ∨
      ∃ b r rest n, s'.batches o = some b ∧ b.phase = .mark r rest n ∧ r.id = id := by
  obtain ⟨r, inside, rfl⟩ := mem_acks.mp member
  obtain ⟨events, grown, happened⟩ := step_trace taken
  rcases List.mem_append.mp (grown ▸ inside) with old | new
  · exact .inl (mem_acks.mpr ⟨r, old, rfl⟩)
  · right
    cases happened with
    | silent => cases new
    | staged => cases List.mem_singleton.mp new
    | offered => cases List.mem_singleton.mp new
    | called known called => cases call_calls called <;> simp at new
    | acknowledged known phase =>
      obtain ⟨rfl, rfl⟩ := Event.acknowledged.inj (List.mem_singleton.mp new)
      obtain ⟨b', _, _, _, known', phase', ⟨_, _, rfl⟩ | ⟨_, impossible, _⟩⟩ :=
        answer_cases (show s.answer o (.ok ()) = some s' from taken)
      · obtain rfl := Option.some.inj (known.symm.trans known')
        cases phase.symm.trans phase'
        exact ⟨_, r, _, _, if_pos rfl, rfl, rfl⟩
      · cases impossible

/-- Only a call of the batch itself adds to its total. -/
theorem adds_quiet (taken : s.step a = some s') (quiet : ∀ at_, a ≠ .database o .ok at_) :
    s'.trace.countP (Event.adds o) = s.trace.countP (Event.adds o) := by
  obtain ⟨events, grown, happened⟩ := step_trace taken
  have none_ : events.countP (Event.adds o) = 0 := by
    cases happened with
    | silent => rfl
    | staged => rfl
    | offered => rfl
    | acknowledged => rfl
    | @called owner at_ b c known called =>
      have other : owner ≠ o := by
        rintro rfl
        exact quiet at_ rfl
      cases call_calls called <;> simp [Event.adds, other]
  rw [grown, List.countP_append, none_, Nat.add_zero]

/-- A mark is recorded, and a late one together with the lost lease. -/
theorem marking_call {b : Batch} {c : Call} {table : List OutboxRow} {now at_ : Timestamp}
    {r : OutboxRecord} {rest : List OutboxRecord} {n : Nat} (phase : b.phase = .mark r rest n)
    (called : b.call table now o at_ = some c) :
    c.events = [.marked o r true] ∨ c.events = [.marked o r false, .lostLease o r] := by
  simp only [Batch.call, phase] at called
  split at called
  · exact .inl (Option.some.inj called ▸ rfl)
  · exact .inr (Option.some.inj called ▸ rfl)

/-- The call that marks adds one exactly when the row was still held. -/
theorem call_adds {b : Batch} {c : Call} {table : List OutboxRow} {now at_ : Timestamp} {n : Nat}
    (called : b.call table now o at_ = some c) (total : c.next.total = some n) :
    ∃ m, b.phase.total = some m ∧ m + c.events.countP (Event.adds o) = n := by
  cases call_calls called with
  | unprepared phase =>
    rw [loop_total] at total
    exact ⟨n, by rw [phase]; exact total, rfl⟩
  | held phase => exact ⟨n, by rw [phase]; exact total, rfl⟩
  | lapsed phase => exact ⟨n, by rw [phase]; exact total, rfl⟩
  | @marked r rest m phase =>
    rw [loop_total] at total
    exact ⟨m, by rw [phase]; rfl, by simpa [Event.adds] using Option.some.inj total⟩
  | @markedLate r rest m phase =>
    rw [loop_total] at total
    exact ⟨m, by rw [phase]; rfl, by simpa [Event.adds] using Option.some.inj total⟩
  | recorded phase => exact ⟨n, by rw [phase]; exact total, rfl⟩
  | released phase => exact ⟨n, by rw [phase]; exact total, rfl⟩
  | unwound => cases total

theorem step_lost (taken : s.step a = some s')
    (lost : s.lostLeasePublishes = s.trace.countP Event.recordsLostLease) :
    s'.lostLeasePublishes = s'.trace.countP Event.recordsLostLease := by
  have append {events : List Event} (silent : events.countP Event.recordsLostLease = 0) :
      s.lostLeasePublishes = (s.trace ++ events).countP Event.recordsLostLease := by
    rw [List.countP_append, silent, lost]
    rfl
  cases step_moves taken with
  | enqueued => exact append rfl
  | published => exact append rfl
  | acknowledged => exact append rfl
  | called known called =>
    change s.lostLeasePublishes + _ = (s.trace ++ _).countP Event.recordsLostLease
    rw [List.countP_append, lost]
    cases call_calls called <;> rfl
  | _ => exact lost

theorem accounted_step (accounted : Accounted s) (answered : Answered s a)
    (taken : s.step a = some s') : Accounted s' where
  acked := by
    intro id o member
    rcases step_acks taken member with old | turned
    · rcases accounted.acked id o old with ⟨b, r, rest, n, known, phase, rfl⟩ | counts | loses
      · obtain ⟨b', known', _, _, ⟨_, rfl⟩ | moved⟩ := step_known_batch taken known
        · exact .inl ⟨_, r, rest, n, known', phase, rfl⟩
        · generalize b'.phase = phase' at moved
          right
          cases moved with
          | call c at_ _ called _ grown =>
            rcases marking_call phase called with recorded | recorded
            · exact .inl (by rw [grown, recorded]; simp [countsRow, Event.marks])
            · right
              rw [grown, recorded]
              simp [countsLoss, Event.marks, Event.recordsLostLeaseOf]
          | error c reply at_ e called failed =>
            subst called
            exact absurd answered failed
          | publish _ _ _ _ _ phase' => cases phase.symm.trans phase'
          | acknowledged _ _ _ _ phase' => cases phase.symm.trans phase'
          | refused _ _ _ _ _ phase' => cases phase.symm.trans phase'
          | crash called =>
            subst called
            exact answered.elim
      · exact .inr (.inl (countsRow_step taken counts))
      · exact .inr (.inr (countsLoss_step taken loses))
    · exact .inl turned
  unknown := by
    intro o fresh
    have before : s.batches o = none := by
      cases known : s.batches o with
      | none => rfl
      | some b =>
        obtain ⟨b', known', _⟩ := step_known_batch taken known
        cases fresh.symm.trans known'
    rw [adds_quiet taken ?_, accounted.unknown o before]
    rintro at_ rfl
    obtain ⟨b, _, known, _⟩ := database_cases (show s.database o .ok at_ = some s' from taken)
    cases before.symm.trans known
  total := by
    intro o b' known' n total
    cases known : s.batches o with
    | none =>
      obtain ⟨relay, plan, reply, rfl, _, ⟨e, ended, _⟩ | ⟨_, _, _, _, start⟩⟩ :=
        step_new_batch taken known known'
      · rw [ended] at total
        cases total
      · rw [start, loop_total] at total
        rw [adds_quiet taken nofun, accounted.unknown o known, Option.some.inj total]
    | some b =>
      obtain ⟨_, _, ⟨other, rfl⟩ | moved⟩ := step_batch taken known known'
      · rw [adds_quiet taken ?_, accounted.total o b' known n total]
        rintro at_ rfl
        exact other rfl
      · generalize b'.phase = phase at moved total
        cases moved with
        | call c at_ _ called _ grown =>
          obtain ⟨m, before, sum⟩ := call_adds called total
          rw [grown, List.countP_append, accounted.total o b known m before, sum]
        | error c reply at_ e called failed =>
          subst called
          exact absurd answered failed
        | publish bytes r rest m called phase =>
          rw [adds_quiet taken (by simp [called])]
          exact accounted.total o b known n (by rw [phase]; exact total)
        | acknowledged r rest m called phase =>
          rw [adds_quiet taken (by simp [called])]
          exact accounted.total o b known n (by rw [phase]; exact total)
        | refused r rest m e called phase =>
          rw [adds_quiet taken (by simp [called])]
          exact accounted.total o b known n (by rw [phase]; exact total)
        | crash called =>
          subst called
          exact answered.elim
  lost := step_lost taken accounted.lost

theorem accounted_of_reaches (accounted : Accounted s)
    (reached : Reaches System.step Answered s s') : Accounted s' :=
  reached.invariant Accounted accounted
    (fun _ _ _ known answered taken => accounted_step known answered taken)

/-- The mark of a row is final: a batch that still held the row was the first to count it. -/
theorem once_step (counted : CountedOnce owners id s) (taken : s.step a = some s') :
    ∀ o ∈ owners, ∀ p ∈ owners, countsRow s'.trace id o = true →
      countsRow s'.trace id p = true → o = p := by
  have first {o p : Uuid} {at_ : Timestamp} (mine : o ∈ owners) (other : p ∈ owners)
      (held : (markPublished s.table id o at_).2 = true) (counts : countsRow s.trace id p = true) :
      False := by
    obtain ⟨row, inside, same, owned⟩ := markPublished_found held
    exact counted.cleared p other counts row inside same o mine owned
  intro o mine p other counts counts'
  rcases step_countsRow taken counts with old | ⟨_, _, _, _, _, rfl, _, _, _, held, _⟩
  · rcases step_countsRow taken counts' with old' | ⟨_, _, _, _, _, rfl, _, _, _, held, _⟩
    · exact counted.once o mine p other old old'
    · exact (first other mine held old).elim
  · rcases step_countsRow taken counts' with old' | ⟨_, _, _, _, _, same, _⟩
    · exact (first mine other held old').elim
    · exact (Action.database.inj same).1

/- While the row is in the table, its being counted shows in its status. -/
def Final (owners : List Uuid) (id : Uuid) (s : System) : Prop :=
  ∀ o ∈ owners, countsRow s.trace id o = true → ∀ row ∈ s.table, row.id = id →
    row.status = .published

omit [External] in
theorem cleared_of_final (ledger : Ledger s) (final : Final owners id s) :
    ∀ o ∈ owners, countsRow s.trace id o = true → ∀ row ∈ s.table, row.id = id →
      ∀ p ∈ owners, row.claimOwner ≠ some p := by
  intro o mine counts row inside same p _ owned
  have published := final o mine counts row inside same
  rw [ledger.waiting row inside p owned] at published
  cases published

theorem final_step (tracked : Tracked s) (ledger : Ledger s) (final : Final owners id s)
    (held : s.holds id) (taken : s.step a = some s') : Final owners id s' := by
  intro o mine counts row' member same
  rcases step_countsRow taken counts with old | ⟨at_, b, r, rest, n, _, _, _, _, found, table⟩
  · obtain ⟨row, inside, moved⟩ | ⟨record, startedAt, _, rfl, _, clear⟩ :=
      row_origin tracked.apart taken member
    · have before : row.id = row'.id := congrArg Staged.id moved.toStaged.symm
      have published := final o mine old row inside (before.trans same)
      cases moved with
      | kept => exact published
      | leased _ _ _ _ _ _ _ _ due =>
        rw [(claimable_iff.mp due).1] at published
        cases published
      | settled p _ _ _ _ _ owned =>
        rw [ledger.waiting row inside p owned] at published
        cases published
    · obtain ⟨row, inside, here⟩ := held
      have apart := (conflicts_false.mp (clear row inside)).1
      exact absurd (here.trans same.symm) apart
  · obtain ⟨row, inside, here, owned⟩ := markPublished_found found
    rw [table] at member
    obtain ⟨row₀, inside₀, rfl⟩ := mem_updateWhere.mp member
    have origin : row₀.id = id := by
      split at same <;> exact same
    rw [tracked.same_id inside₀ inside (origin.trans here.symm),
      if_pos (ownedAs_iff.mpr ⟨here, owned⟩)]
    rfl

/-- Owners drawn while the row was there cannot take it again once it is gone. -/
theorem cleared_step (tracked : Tracked s) (counted : CountedOnce owners id s)
    (drawn : ∀ o ∈ owners, ∃ b, s.batches o = some b) (taken : s.step a = some s') :
    CountedOnce owners id s' where
  once := once_step counted taken
  cleared := by
    intro o mine counts row member same p other owned
    obtain ⟨b, known⟩ := drawn p other
    have inside := owned_origin tracked.apart taken known member owned
    rcases step_countsRow taken counts with old | ⟨at_, _, _, _, _, _, _, _, _, found, table⟩
    · exact counted.cleared o mine old row inside same p other owned
    · obtain ⟨row₀, inside₀, here, owned₀⟩ := markPublished_found found
      rw [tracked.same_id inside₀ inside (here.trans same.symm)] at owned₀
      exact markPublished_disowns (table ▸ member) same owned₀

omit [External] in
theorem counts_known (accounted : Accounted s) (counts : countsRow s.trace id o = true) :
    ∃ b, s.batches o = some b := by
  cases known : s.batches o with
  | some b => exact ⟨b, rfl⟩
  | none =>
    obtain ⟨r, inside, _⟩ := countsRow_iff.mp counts
    have adds := List.countP_eq_zero.mp (accounted.unknown o known) _ inside
    simp [Event.adds] at adds

/-- Of the owners drawn while the row stays in the table one batch at most counts it. -/
theorem counted_once {x y : System} (tracked : Tracked x) (ledger : Ledger x)
    (accounted : Accounted x) (fresh : ∀ o ∈ owners, x.batches o = none)
    (staged : Reaches System.step (fun s _ => s.holds id) x y) :
    Tracked y ∧ CountedOnce owners id y := by
  have uncounted : ∀ o ∈ owners, countsRow x.trace id o = true → False := by
    intro o mine counts
    obtain ⟨b, known⟩ := counts_known accounted counts
    cases (fresh o mine).symm.trans known
  have kept : Tracked y ∧ Ledger y ∧ CountedOnce owners id y ∧ Final owners id y := by
    apply staged.invariant
      (fun s => Tracked s ∧ Ledger s ∧ CountedOnce owners id s ∧ Final owners id s)
    · refine ⟨tracked, ledger, ⟨?_, ?_⟩, ?_⟩
      · intro o mine _ _ counts
        exact (uncounted o mine counts).elim
      · intro o mine counts
        exact (uncounted o mine counts).elim
      · intro o mine counts
        exact (uncounted o mine counts).elim
    · rintro s a s' ⟨tracked, ledger, counted, final⟩ held taken
      have ledger' := ledger_step tracked ledger taken
      have final' := final_step tracked ledger final held taken
      exact ⟨tracked_step tracked taken, ledger',
        ⟨once_step counted taken, cleared_of_final ledger' final'⟩, final'⟩
  exact ⟨kept.1, kept.2.2.1⟩

end Step

/-- Distinct elements of which any two with the property are equal include at most one. -/
theorem countP_le_one {α : Type} {q : α → Bool} {xs : List α} (distinct : xs.Nodup)
    (once : ∀ x ∈ xs, ∀ y ∈ xs, q x = true → q y = true → x = y) :
    xs.countP q ≤ 1 := by
  have unique := distinct.filter q
  have same : ∀ x ∈ xs.filter q, ∀ y ∈ xs.filter q, x = y := by
    intro x hx y hy
    obtain ⟨hx, qx⟩ := List.mem_filter.mp hx
    obtain ⟨hy, qy⟩ := List.mem_filter.mp hy
    exact once x hx y hy qx qy
  rw [List.countP_eq_length_filter]
  generalize xs.filter q = ys at unique same
  match ys with
  | [] => exact Nat.zero_le 1
  | [x] => exact le_rfl
  | x :: y :: rest =>
    have equal := same x List.mem_cons_self y (List.mem_cons_of_mem x List.mem_cons_self)
    exact absurd (equal ▸ List.mem_cons_self) (List.nodup_cons.mp unique).1

section Runs

variable [External]

/- The batch was drawn between `x` and `y`, got `Ok` for the row and has returned in `z`. -/
def ReturnedOk (x y z : System) (id o : Uuid) : Prop :=
  x.batches o = none ∧ (∃ b, y.batches o = some b) ∧ o ∈ acks z.trace id ∧
    ∃ b result, z.batches o = some b ∧ b.phase = .done result

/-- The row `id` is in the table from `x` up to `y`. Of the batches drawn in between that
got `Ok` for it, all but one were told by their mark that the row was no longer theirs and
counted a lost lease, and at most one has the row in its total. -/
theorem double_publish_counted {now : Timestamp} {x y z : System}
    (before : Reaches System.step Answered (.initial now) x)
    (staged : Reaches System.step (fun s a => Answered s a ∧ s.holds id) x y)
    (after : Reaches System.step Answered y z) (distinct : owners.Nodup)
    (published : ∀ o ∈ owners, ReturnedOk x y z id o) :
    owners.length - 1 ≤ owners.countP (countsLoss z.trace id) ∧
      owners.countP (countsRow z.trace id) ≤ 1 ∧
      (∀ o b n, z.batches o = some b → b.phase = .done (.ok n) →
        n = z.trace.countP (Event.adds o)) ∧
      z.lostLeasePublishes = z.trace.countP Event.recordsLostLease := by
  have tracked := tracked_of_reaches (tracked_initial now) before
  have ledger := ledger_of_reaches (tracked_initial now) (ledger_initial now) before
  have accounted := accounted_of_reaches (accounted_initial now) before
  have later := (staged.mono (fun _ _ allowed => allowed.1)).trans after
  have final := accounted_of_reaches accounted later
  obtain ⟨trackedY, countedY⟩ := counted_once tracked ledger accounted
    (fun o mine => (published o mine).1) (staged.mono (fun _ _ allowed => allowed.2))
  have counted : Tracked z ∧ CountedOnce owners id z ∧
      ∀ o ∈ owners, ∃ b, z.batches o = some b := by
    apply after.invariant
      (fun s => Tracked s ∧ CountedOnce owners id s ∧
        ∀ o ∈ owners, ∃ b, s.batches o = some b)
      ⟨trackedY, countedY, fun o mine => (published o mine).2.1⟩
    rintro s a s' ⟨tracked, counted, drawn⟩ _ taken
    refine ⟨tracked_step tracked taken, cleared_step tracked counted drawn taken, ?_⟩
    intro o mine
    obtain ⟨b, known⟩ := drawn o mine
    obtain ⟨b', known', _⟩ := step_known_batch taken known
    exact ⟨b', known'⟩
  have few : owners.countP (countsRow z.trace id) ≤ 1 := countP_le_one distinct counted.2.1.once
  have rest : owners.countP (fun o => !countsRow z.trace id o) ≤
      owners.countP (countsLoss z.trace id) := by
    apply List.countP_mono_left
    intro o mine uncounted
    obtain ⟨_, _, acked, b, result, known, phase⟩ := published o mine
    rcases final.acked id o acked with ⟨b', r, tail, n, known', marking, _⟩ | counts | loses
    · obtain rfl := Option.some.inj (known.symm.trans known')
      cases phase.symm.trans marking
    · rw [counts] at uncounted
      cases uncounted
    · exact loses
  refine ⟨?_, few, ?_, final.lost⟩
  · have split := List.length_eq_countP_add_countP (countsRow z.trace id) (l := owners)
    simp only [Bool.not_eq_true, Bool.decide_eq_false] at split
    omega
  · intro o b n known phase
    exact (final.total o b known n (by rw [phase]; rfl)).symm

end Runs

section Sample

attribute [local instance] Sample.external

open Sample

/- The lease of the first batch lapses while its publish is under way; the second batch
publishes the row again and marks it first. -/
def lapsedPublishRun : List Action :=
  [.claim 1 .new plan .ok, .database 1 .ok 0, .publish 1, .append (message order1),
    .tick 300000000, .claim 2 .new plan .ok, .database 2 .ok 0, .publish 2, .answer 2 (.ok ()),
    .answer 1 (.ok ()), .database 2 .ok 0, .database 1 .ok 0]

def answeredHolding (id : Uuid) (s : System) (a : Action) : Bool :=
  s.table.any (fun row => row.id == id) &&
    match a with
    | .claim _ _ _ .ok => true
    | .database _ .ok _ => true
    | .publish _ => true
    | .answer _ _ => true
    | .append _ => true
    | .tick _ => true
    | _ => false

theorem answeredHolding_spec {s : System} {a : Action} {id : Uuid}
    (allowed : answeredHolding id s a = true) : Answered s a ∧ s.holds id := by
  obtain ⟨present, quiet⟩ := Bool.and_eq_true_iff.mp allowed
  obtain ⟨row, inside, same⟩ := List.any_eq_true.mp present
  refine ⟨?_, row, inside, beq_iff_eq.mp same⟩
  split at quiet <;> first | rfl | exact trivial | cases quiet

def returnsOk (x y : System) (id o : Uuid) : Bool :=
  (x.batches o).isNone && decide (o ∈ acks y.trace id) &&
    (y.batches o).any (fun b => match b.phase with
      | .done _ => true
      | _ => false)

theorem returnsOk_spec {x y : System} {id o : Uuid} (returned : returnsOk x y id o = true) :
    ReturnedOk x y y id o := by
  simp only [returnsOk, Bool.and_eq_true, Option.isNone_iff_eq_none, decide_eq_true_eq] at returned
  obtain ⟨⟨fresh, acked⟩, ended⟩ := returned
  obtain ⟨b, known, phase⟩ := (Option.any_eq_true _ _).mp ended
  refine ⟨fresh, ⟨b, known⟩, acked, b, ?_⟩
  split at phase
  · rename_i result same
    exact ⟨result, known, same⟩
  · cases phase

theorem double_publish_counted_lapse :
    ∃ x y, run System.step (.initial 0) [.enqueue order1 0, .tick 1] = some x ∧
      run (guarded System.step (answeredHolding 1)) x lapsedPublishRun = some y ∧
      acks y.trace 1 = [2, 1] ∧ 1 ≤ [1, 2].countP (countsLoss y.trace 1) ∧
      [1, 2].countP (countsRow y.trace 1) ≤ 1 ∧
      y.lostLeasePublishes = y.trace.countP Event.recordsLostLease := by
  have ends : (run System.step (.initial 0) [.enqueue order1 0, .tick 1]).bind (fun x =>
      (run (guarded System.step (answeredHolding 1)) x lapsedPublishRun).map (fun y =>
        (acks y.trace 1, [1, 2].all (returnsOk x y 1)))) = some ([2, 1], true) := by decide +kernel
  obtain ⟨x, setup, taken⟩ := Option.bind_eq_some_iff.mp ends
  obtain ⟨y, taken, view⟩ := Option.map_eq_some_iff.mp taken
  obtain ⟨acked, returned⟩ := Prod.mk.inj view
  have before : Reaches System.step Answered (.initial 0) x := by
    apply reaches_of_run Answered _ setup
    intro _ a member
    rcases List.mem_cons.mp member with rfl | member
    · exact trivial
    · rw [List.mem_singleton.mp member]
      exact trivial
  obtain ⟨late, few, _, lost⟩ := double_publish_counted before
    ((reaches_of_guarded taken).mono (fun _ _ allowed => answeredHolding_spec allowed)) .refl
    (by decide) (fun o mine => returnsOk_spec (List.all_eq_true.mp returned o mine))
  exact ⟨x, y, setup, taken, acked, late, few, lost⟩

end Sample

end FiduciaMessaging
