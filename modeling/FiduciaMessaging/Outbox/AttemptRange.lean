import FiduciaMessaging.Outbox.Operations
import FiduciaMessaging.Outbox.Ledger

/-! Attempt counts against the range of a Postgres `integer`. An enqueue saturates the count
of its record at the top of the range, and every claim adds one to it. -/
namespace FiduciaMessaging

open RowSet Runs

/- The store and what its history says of the attempts of an id: the count its row was staged
with, the claims that leased it since, and the releases that gave it back. -/
structure Tally where
  store : Store
  staged : Uuid → Int
  claims : Uuid → Nat
  releases : Uuid → Nat

def Tally.initial (now : Timestamp) : Tally where
  store := .initial now
  staged := fun _ => 0
  claims := fun _ => 0
  releases := fun _ => 0

/- The attempts an id has spent, by its history alone. -/
def Tally.spent (x : Tally) (id : Uuid) : Int := x.staged id + x.claims id - x.releases id

/- Each row a claim selects has an attempt left in the range. -/
def Tally.HasRoom (x : Tally) (limit : Int) (plan : Plan) : Prop :=
  ∀ row ∈ claimCandidates x.store.table x.store.now limit plan, x.spent row.id < i32Max

/- What is promised of a claim: the sum `attempts + 1` of every row it selects is an
`integer`, no row makes it fail, and its records report the stored attempts. -/
structure ClaimsSafely (s : Store) (owner : Uuid) (claimTtl : Duration) (limit : Int)
    (plan : Plan) : Prop where
  range : ∀ row ∈ claimCandidates s.table s.now limit plan,
    -i32Max - 1 ≤ row.attempts + 1 ∧ row.attempts + 1 ≤ i32Max
  succeeds : claimPendingOutbox s.table s.now owner claimTtl limit plan ≠
    .error (.database "integer out of range")
  reports : ∀ after records,
    claimPendingOutbox s.table s.now owner claimTtl limit plan = .ok (after, records) →
    ∀ record ∈ records, ∃ row ∈ after, row.id = record.id ∧
      row.attempts = record.attempts.toNat

section Tally

variable [External]

/- The attempts with which an operation stages a row of the id. -/
def Store.stages (s : Store) (op : Operation) (id : Uuid) : Option Int :=
  match op with
  | .enqueue record _ =>
    if record.id = id ∧ record.validate.isOk ∧
        !s.table.any (fun row => row.toStaged.conflicts record.toStaged) then
      some (saturateI32 record.attempts)
    else none
  | _ => none

def Store.leases (s : Store) (op : Operation) (id : Uuid) : Bool :=
  match op with
  | .claim owner claimTtl limit plan =>
    (claimPendingOutbox s.table s.now owner claimTtl limit plan).isOk &&
      ((claimCandidates s.table s.now limit plan).map (·.id)).contains id
  | _ => false

def Store.givesBack (s : Store) (op : Operation) (id : Uuid) : Bool :=
  match op with
  | .release owner => s.table.any (fun row => row.id == id && row.pendingOf owner)
  | _ => false

def Tally.step (x : Tally) (op : Operation) : Option Tally :=
  (x.store.step op).map fun store =>
    { store := store
      staged := fun id => (x.store.stages op id).getD (x.staged id)
      claims := fun id => if (x.store.stages op id).isSome then 0
        else x.claims id + (x.store.leases op id).toNat
      releases := fun id => if (x.store.stages op id).isSome then 0
        else x.releases id + (x.store.givesBack op id).toNat }

end Tally

/- Every row holds the count of its history, inside the range, and a leased row has spent one. -/
structure Counted (table : List OutboxRow) (spent : Uuid → Int) : Prop where
  apart : table.Pairwise OutboxRow.Apart
  tallied : ∀ row ∈ table, row.attempts = spent row.id
  range : ∀ row ∈ table, 0 ≤ row.attempts ∧ row.attempts ≤ i32Max
  leased : ∀ row ∈ table, row.claimOwner.isSome = true → 1 ≤ row.attempts

section Counted

variable {table : List OutboxRow} {spent spent' : Uuid → Int}

/-- An update that accounts for what it does to each row. -/
theorem Counted.map (counted : Counted table spent) {g : OutboxRow → OutboxRow}
    (staged : ∀ row, (g row).toStaged = row.toStaged)
    (moves : ∀ row ∈ table, (g row).attempts = spent' row.id ∧ 0 ≤ (g row).attempts ∧
      (g row).attempts ≤ i32Max ∧
      ((g row).claimOwner.isSome = true → 1 ≤ (g row).attempts)) :
    Counted (table.map g) spent' := by
  constructor
  · apply apart_of_staged counted.apart
    rw [List.map_map]
    exact List.map_congr_left (fun row _ => staged row)
  · intro row' member
    obtain ⟨row, inside, rfl⟩ := List.mem_map.mp member
    have id : (g row).id = row.id := congrArg Staged.id (staged row)
    rw [id]
    exact (moves row inside).1
  · intro row' member
    obtain ⟨row, inside, rfl⟩ := List.mem_map.mp member
    exact ⟨(moves row inside).2.1, (moves row inside).2.2.1⟩
  · intro row' member
    obtain ⟨row, inside, rfl⟩ := List.mem_map.mp member
    exact (moves row inside).2.2.2

/-- A staged row starts its history at the saturated count. -/
theorem Counted.staged (counted : Counted table spent) {record : OutboxRecord}
    {startedAt : Timestamp}
    (clear : ∀ row ∈ table, row.toStaged.conflicts record.toStaged = false)
    (fresh : spent' record.id = saturateI32 record.attempts)
    (old : ∀ row ∈ table, spent' row.id = spent row.id) :
    Counted (table ++ [record.row startedAt]) spent' := by
  constructor
  · apply List.pairwise_append.mpr
    refine ⟨counted.apart, List.pairwise_singleton _ _, ?_⟩
    intro row inside new single
    rw [List.mem_singleton.mp single]
    exact clear row inside
  · intro row member
    rcases List.mem_append.mp member with inside | new
    · rw [old row inside]
      exact counted.tallied row inside
    · rw [List.mem_singleton.mp new]
      exact fresh.symm
  · intro row member
    rcases List.mem_append.mp member with inside | new
    · exact counted.range row inside
    · rw [List.mem_singleton.mp new]
      exact ⟨le_min (Int.natCast_nonneg _) (by decide), min_le_right _ _⟩
  · intro row member owned
    rcases List.mem_append.mp member with inside | new
    · exact counted.leased row inside owned
    · rw [List.mem_singleton.mp new] at owned
      cases owned

/-- A mark that ends leases and leaves the attempts alone. -/
theorem Counted.marked (counted : Counted table spent) {p : OutboxRow → Bool}
    {f : OutboxRow → OutboxRow} (staged : ∀ row, (f row).toStaged = row.toStaged)
    (attempts : ∀ row, (f row).attempts = row.attempts)
    (cleared : ∀ row, (f row).claimOwner = none) :
    Counted (updateWhere p f table) spent := by
  apply counted.map
  · intro row
    split
    · exact staged row
    · rfl
  · intro row inside
    obtain ⟨nonneg, fits⟩ := counted.range row inside
    split
    · rw [attempts, cleared]
      exact ⟨counted.tallied row inside, nonneg, fits, nofun⟩
    · exact ⟨counted.tallied row inside, nonneg, fits, counted.leased row inside⟩

theorem Counted.deleted (counted : Counted table spent) (p : OutboxRow → Bool) :
    Counted (deleteWhere p table) spent where
  apart := counted.apart.sublist (deleteWhere_sublist _ _)
  tallied := fun row member => counted.tallied row (mem_deleteWhere.mp member).1
  range := fun row member => counted.range row (mem_deleteWhere.mp member).1
  leased := fun row member => counted.leased row (mem_deleteWhere.mp member).1

/-- A release takes back one attempt of each row it matches. -/
theorem Counted.released (counted : Counted table spent) (owner : Uuid)
    (tally : ∀ id, spent' id = spent id -
      (table.any (fun row => row.id == id && row.pendingOf owner)).toNat) :
    Counted (releaseOutboxClaims table owner).1 spent' := by
  apply counted.map
  · intro row
    split <;> rfl
  · intro row inside
    obtain ⟨nonneg, fits⟩ := counted.range row inside
    have same := counted.tallied row inside
    have matched : table.any (fun other => other.id == row.id && other.pendingOf owner) =
        row.pendingOf owner := by
      rw [Bool.eq_iff_iff, List.any_eq_true]
      constructor
      · rintro ⟨other, inside', found⟩
        obtain ⟨here, pending⟩ := Bool.and_eq_true_iff.mp found
        have clash : other.toStaged.conflicts row.toStaged = true := by
          simp [Staged.conflicts, beq_iff_eq.mp here]
        rw [same_of_apart counted.apart inside' inside clash] at pending
        exact pending
      · intro pending
        exact ⟨row, inside, by simp [pending]⟩
    rw [tally, matched]
    cases pending : row.pendingOf owner with
    | false =>
      simp only [Bool.false_eq_true, if_false, Bool.toNat_false]
      exact ⟨by omega, nonneg, fits, counted.leased row inside⟩
    | true =>
      have paid := counted.leased row inside (by rw [(pendingOf_iff.mp pending).2]; rfl)
      simp only [if_true, OutboxRow.released, Bool.toNat_true]
      have unleased : (none : Option Uuid).isSome = true → 1 ≤ max (row.attempts - 1) 0 := by
        intro impossible
        contradiction
      refine ⟨?_, le_max_right _ _, ?_, unleased⟩
      · omega
      · omega

/-- A claim adds one to each row it selects. -/
theorem Counted.claimed (counted : Counted table spent) {owner : Uuid} {now expires : Timestamp}
    {picked after : List OutboxRow} {records : List OutboxRecord}
    (claimed : ClaimedBy owner now expires table picked after records)
    (tally : ∀ id, spent' id = spent id + ((picked.map (·.id)).contains id).toNat) :
    Counted after spent' := by
  rw [claimed.leases]
  apply counted.map
  · intro row
    split <;> rfl
  · intro row inside
    obtain ⟨nonneg, fits⟩ := counted.range row inside
    have same := counted.tallied row inside
    rw [tally]
    by_cases matched : (picked.map (·.id)).contains row.id = true
    · have chosen := (claimed.picked_iff (unique_of_apart counted.apart) inside).mp matched
      have room := (claimed.due row chosen).2.2
      rw [if_pos matched, matched]
      change row.attempts + 1 = spent row.id + 1 ∧ 0 ≤ row.attempts + 1 ∧
        row.attempts + 1 ≤ i32Max ∧ (_ → 1 ≤ row.attempts + 1)
      exact ⟨by omega, by omega, room, fun _ => by omega⟩
    · rw [if_neg matched, Bool.eq_false_iff.mpr matched]
      exact ⟨by rw [same]; exact (Int.add_zero _).symm, nonneg, fits, counted.leased row inside⟩

end Counted

section Run

variable [External] {x y : Tally} {op : Operation}

/-- The step is the store's, and each id's history moves by what the operation did to it. -/
theorem tally_step (taken : x.step op = some y) : x.store.step op = some y.store ∧
    ∀ id, y.spent id = (x.store.stages op id).getD
      (x.spent id + (x.store.leases op id).toNat - (x.store.givesBack op id).toNat) := by
  obtain ⟨store, stepped, rfl⟩ := Option.map_eq_some_iff.mp taken
  refine ⟨stepped, ?_⟩
  intro id
  simp only [Tally.spent]
  cases x.store.stages op id with
  | some count => simp
  | none =>
    simp only [Option.getD_none, Option.isSome_none, Bool.false_eq_true, if_false, Int.natCast_add]
    omega

/-- An operation that stages, leases and gives back nothing leaves every count as it was. -/
theorem tally_still (taken : x.step op = some y) (unstaged : ∀ id, x.store.stages op id = none)
    (unleased : ∀ id, x.store.leases op id = false)
    (ungiven : ∀ id, x.store.givesBack op id = false) : y.spent = x.spent := by
  funext id
  rw [(tally_step taken).2 id, unstaged, unleased, ungiven]
  simp

theorem counted_enqueue {record : OutboxRecord} {startedAt : Timestamp}
    (counted : Counted x.store.table x.spent)
    (taken : x.step (.enqueue record startedAt) = some y) :
    Counted y.store.table y.spent := by
  obtain ⟨stepped, spent⟩ := tally_step taken
  have unstaged (refused : ∀ id, x.store.stages (.enqueue record startedAt) id = none) :
      y.spent = x.spent :=
    tally_still taken refused (fun _ => rfl) (fun _ => rfl)
  simp only [Store.step] at stepped
  split at stepped
  · cases inserted : insertOutboxRow x.store.table startedAt record with
    | error e =>
      rw [inserted] at stepped
      have same : y.store = x.store := (Option.some.inj stepped).symm
      have refused : record.validate.isOk = false := by
        cases checked : record.validate with
        | error e => rfl
        | ok u => simp [insertOutboxRow, checked, bind, Except.bind, pure, Except.pure] at inserted
      rw [same, unstaged (fun id => if_neg (by simp [refused]))]
      exact counted
    | ok table =>
      rw [inserted] at stepped
      have after : y.store.table = table := congrArg Store.table (Option.some.inj stepped).symm
      obtain ⟨valid, rfl⟩ := insertOutboxRow_ok inserted
      rw [after]
      unfold insertUnless
      split
      · rename_i clash
        rw [unstaged (fun id => if_neg (by simp [clash]))]
        exact counted
      · rename_i free
        have clear : ∀ row ∈ x.store.table, row.toStaged.conflicts record.toStaged = false := by
          simpa using free
        have accepted : record.validate.isOk = true := by
          rw [valid]
          rfl
        have fresh : y.spent record.id = saturateI32 record.attempts := by
          have staged : x.store.stages (.enqueue record startedAt) record.id =
              some (saturateI32 record.attempts) := if_pos ⟨rfl, accepted, by simpa using clear⟩
          rw [spent, staged, Option.getD_some]
        have old : ∀ row ∈ x.store.table, y.spent row.id = x.spent row.id := by
          intro row inside
          have different : record.id ≠ row.id :=
            fun same => (conflicts_false.mp (clear row inside)).1 same.symm
          have none_ : x.store.stages (.enqueue record startedAt) row.id = none :=
            if_neg (fun both => different both.1)
          rw [spent, none_]
          simp [Store.leases, Store.givesBack]
        exact counted.staged clear fresh old
  · contradiction

theorem counted_step (counted : Counted x.store.table x.spent) (taken : x.step op = some y) :
    Counted y.store.table y.spent := by
  obtain ⟨stepped, spent⟩ := tally_step taken
  cases op with
  | enqueue record startedAt => exact counted_enqueue counted taken
  | claim owner claimTtl limit plan =>
    simp only [Store.step] at stepped
    split at stepped
    · rename_i after records claimed
      have same : y.store.table = after := congrArg Store.table (Option.some.inj stepped).symm
      obtain ⟨ms, _, spec⟩ := claimPendingOutbox_spec claimed
      rw [same]
      apply counted.claimed spec
      intro id
      rw [spent]
      simp [Store.stages, Store.leases, Store.givesBack, claimed, Except.isOk, Except.toBool]
    · rename_i e refused
      have same : y.store = x.store := (Option.some.inj stepped).symm
      have still : y.spent = x.spent := by
        apply tally_still taken (fun _ => rfl) _ (fun _ => rfl)
        intro id
        simp [Store.leases, refused, Except.isOk, Except.toBool]
      rw [same, still]
      exact counted
  | markPublished id owner at_ =>
    have same := congrArg Store.table (Option.some.inj stepped)
    rw [← same, tally_still taken (fun _ => rfl) (fun _ => rfl) (fun _ => rfl)]
    exact counted.marked (fun _ => rfl) (fun _ => rfl) (fun _ => rfl)
  | markFailed id owner error =>
    have same := congrArg Store.table (Option.some.inj stepped)
    rw [← same, tally_still taken (fun _ => rfl) (fun _ => rfl) (fun _ => rfl)]
    exact counted.marked (fun _ => rfl) (fun _ => rfl) (fun _ => rfl)
  | reschedule id owner error =>
    have same := congrArg Store.table (Option.some.inj stepped)
    rw [← same, tally_still taken (fun _ => rfl) (fun _ => rfl) (fun _ => rfl)]
    exact counted.marked (fun _ => rfl) (fun _ => rfl) (fun _ => rfl)
  | release owner =>
    have same := congrArg Store.table (Option.some.inj stepped)
    rw [← same]
    apply counted.released owner
    intro id
    rw [spent]
    simp [Store.stages, Store.leases, Store.givesBack]
  | purge olderThan =>
    have still := tally_still taken (fun _ => rfl) (fun _ => rfl) (fun _ => rfl)
    rw [still]
    simp only [Store.step] at stepped
    split at stepped
    · rename_i after n purged
      have same : y.store.table = after := congrArg Store.table (Option.some.inj stepped).symm
      obtain ⟨cutoff, rfl⟩ := purgePublishedOutbox_ok purged
      rw [same]
      exact counted.deleted _
    · have same : y.store = x.store := (Option.some.inj stepped).symm
      rw [same]
      exact counted
  | tick elapsed =>
    have same := congrArg Store.table (Option.some.inj stepped)
    rw [← same, tally_still taken (fun _ => rfl) (fun _ => rfl) (fun _ => rfl)]
    exact counted

theorem counted_of_reaches {ok : Tally → Operation → Prop} {now : Timestamp}
    (reached : Reaches Tally.step ok (.initial now) x) : Counted x.store.table x.spent := by
  apply reached.invariant (fun x : Tally => Counted x.store.table x.spent)
  · constructor
    · exact List.Pairwise.nil
    · intro row member
      cases member
    · intro row member
      cases member
    · intro row member
      cases member
  · intro x op y counted _ taken
    exact counted_step counted taken

/-- The tally is kept beside the store and refuses no operation, so it follows every run. -/
theorem tally_follows {ok : Store → Operation → Prop} {now : Timestamp} {s : Store}
    (reached : Reaches Store.step ok (.initial now) s) :
    ∃ x, x.store = s ∧ Reaches Tally.step (fun _ _ => True) (.initial now) x := by
  induction reached with
  | refl => exact ⟨.initial now, rfl, .refl⟩
  | @tail s t op before allowed taken ih =>
    obtain ⟨x, rfl, path⟩ := ih
    have moves : ∃ y, x.step op = some y ∧ y.store = t := by
      unfold Tally.step
      rw [taken]
      exact ⟨_, rfl, rfl⟩
    obtain ⟨y, moved, same⟩ := moves
    exact ⟨y, same, path.tail trivial moved⟩

omit [External] in
/-- One selected row at the top of the range aborts the claim of all of them. -/
theorem claim_aborts {s : Store} {owner : Uuid} {claimTtl : Duration} {limit : Int} {plan : Plan}
    {row : OutboxRow} {ms : Int} (positive : 0 < limit)
    (finite : positiveMs claimTtl "outbox claim TTL" = .ok ms)
    (picked : row ∈ claimCandidates s.table s.now limit plan) (full : i32Max < row.attempts + 1) :
    claimPendingOutbox s.table s.now owner claimTtl limit plan =
      .error (.database "integer out of range") := by
  have overflows : (claimCandidates s.table s.now limit plan).any
      (fun row => row.attempts + 1 > i32Max) = true :=
    List.any_eq_true.mpr ⟨row, picked, decide_eq_true full⟩
  simp only [claimPendingOutbox, bind, Except.bind, pure, Except.pure, throw, throwThe,
    MonadExceptOf.throw, finite, overflows, if_neg (Int.not_le.mpr positive), if_true]

omit [External] in
/-- Nothing but a selected row at the top of the range raises the overflow. -/
theorem claim_fits {s : Store} {owner : Uuid} {claimTtl : Duration} {limit : Int} {plan : Plan}
    (fits : ∀ row ∈ claimCandidates s.table s.now limit plan, row.attempts + 1 ≤ i32Max) :
    claimPendingOutbox s.table s.now owner claimTtl limit plan ≠
      .error (.database "integer out of range") := by
  intro refused
  have below : ¬ (claimCandidates s.table s.now limit plan).any
      (fun row => row.attempts + 1 > i32Max) = true := by
    intro found
    obtain ⟨row, picked, above⟩ := List.any_eq_true.mp found
    exact absurd (fits row picked) (Int.not_le.mpr (of_decide_eq_true above))
  simp only [claimPendingOutbox, bind, Except.bind, pure, Except.pure, throw, throwThe,
    MonadExceptOf.throw, below] at refused
  split at refused
  · simp at refused
  · unfold positiveMs at refused
    split at refused
    · rename_i accepted
      split at accepted
      · contradiction
      · obtain rfl := Except.error.inj accepted
        simp at refused
    · contradiction

/-- Whatever was enqueued, claimed, released and rescheduled before, a claim is safe exactly if
every row it selects has an attempt left: its staged count, cut off at the top of the range,
and the claims since then less the releases stay below the top. -/
theorem claims_safely_iff {now : Timestamp}
    (reached : Reaches Tally.step (fun _ _ => True) (.initial now) x) (owner : Uuid)
    (claimTtl : Duration) (limit : Int) (plan : Plan) :
    ClaimsSafely x.store owner claimTtl limit plan ↔ x.HasRoom limit plan := by
  have counted := counted_of_reaches reached
  constructor
  · intro safe row picked
    have fits := (safe.range row picked).2
    rw [← counted.tallied row (mem_claimCandidates picked).1]
    omega
  · intro room
    have fits : ∀ row ∈ claimCandidates x.store.table x.store.now limit plan,
        row.attempts + 1 ≤ i32Max := by
      intro row picked
      have left := room row picked
      rw [← counted.tallied row (mem_claimCandidates picked).1] at left
      omega
    constructor
    · intro row picked
      have nonneg := (counted.range row (mem_claimCandidates picked).1).1
      refine ⟨?_, fits row picked⟩
      unfold i32Max
      omega
    · exact claim_fits fits
    · intro after records claimed record returned
      obtain ⟨ms, _, spec⟩ := claimPendingOutbox_spec claimed
      obtain ⟨row, picked, rfl⟩ := spec.returned returned
      have nonneg := (counted.range row (mem_claimCandidates picked).1).1
      have inside : row.leased owner (x.store.now + ms * millisecond) ∈ after := by
        rw [spec.leases]
        exact mem_updateWhere_of_match (mem_claimCandidates picked).1
          ((spec.picked_iff (unique_of_apart counted.apart) (mem_claimCandidates picked).1).mpr
            picked)
      exact ⟨_, inside, rfl, (leased_count nonneg (fits row picked)).symm⟩

end Run

section Sample

attribute [local instance] Sample.external

open Sample

/- A record staged with the largest count of its type. -/
def exhausted : OutboxRecord := { order1 with attempts := 4294967295 }

def blockedStaging : List Operation := [.enqueue exhausted 0, .enqueue order2 0, .tick 1]

theorem exhausted_row_blocks : ∃ s, run Store.step (.initial 0) blockedStaging = some s ∧
    (claimCandidates s.table s.now 10 plan).map (fun row => (row.id, row.attempts)) =
      [(1, 2147483647), (2, 0)] ∧
    claimPendingOutbox s.table s.now 7 defaultClaimTtl 10 plan =
      .error (.database "integer out of range") ∧
    ¬ ClaimsSafely s 7 defaultClaimTtl 10 plan := by
  have counts : (run Store.step (.initial 0) blockedStaging).map (fun s =>
      (claimCandidates s.table s.now 10 plan).map (fun row => (row.id, row.attempts))) =
      some [(1, 2147483647), (2, 0)] := by decide +kernel
  obtain ⟨s, taken, rows⟩ := Option.map_eq_some_iff.mp counts
  have found : ((1 : Uuid), (2147483647 : Int)) ∈
      (claimCandidates s.table s.now 10 plan).map (fun row => (row.id, row.attempts)) := by
    rw [rows]
    exact List.mem_cons_self
  obtain ⟨row, picked, same⟩ := List.mem_map.mp found
  have full : i32Max < row.attempts + 1 := by
    rw [(Prod.mk.inj same).2]
    decide
  have aborted : claimPendingOutbox s.table s.now 7 defaultClaimTtl 10 plan =
      .error (.database "integer out of range") := claim_aborts (by decide) rfl picked full
  exact ⟨s, taken, rows, aborted, fun safe => safe.succeeds aborted⟩

/- The first row is claimed, released and claimed once more after its lease. -/
def countedRun : List Operation :=
  [.enqueue order1 0, .tick 1, .claim 7 defaultClaimTtl 10 plan, .release 7,
    .claim 8 defaultClaimTtl 10 plan, .tick 400000000]

theorem claims_safely_iff_counted : ∃ x, run Tally.step (.initial 0) countedRun = some x ∧
    (claimCandidates x.store.table x.store.now 10 plan).map (fun row =>
      (x.staged row.id, x.claims row.id, x.releases row.id)) = [(0, 2, 1)] ∧
    ClaimsSafely x.store 9 defaultClaimTtl 10 plan := by
  have ends : (run Tally.step (.initial 0) countedRun).map (fun x =>
      (claimCandidates x.store.table x.store.now 10 plan).map (fun row =>
        (x.staged row.id, x.claims row.id, x.releases row.id))) = some [(0, 2, 1)] := by
    decide +kernel
  obtain ⟨x, taken, history⟩ := Option.map_eq_some_iff.mp ends
  refine ⟨x, taken, history, ?_⟩
  apply (claims_safely_iff (reaches_of_run _ _ taken (fun _ _ _ => trivial)) _ _ _ _).mpr
  intro row picked
  have listed := List.mem_map_of_mem
    (f := fun row : OutboxRow => (x.staged row.id, x.claims row.id, x.releases row.id)) picked
  rw [history] at listed
  obtain ⟨staged, rest⟩ := Prod.mk.inj (List.mem_singleton.mp listed)
  obtain ⟨claims, releases⟩ := Prod.mk.inj rest
  unfold Tally.spent
  rw [staged, claims, releases]
  decide

end Sample

end FiduciaMessaging
