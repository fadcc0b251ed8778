import FiduciaMessaging.Outbox.Producers
import FiduciaMessaging.Outbox.Stems

/-! The transactional outbox is atomic. What a transaction did to the domain and what it
asked to be staged take effect together, and nothing of one that did not commit is ever
handed to the broker. -/
namespace FiduciaMessaging

open Runs Drafts

variable {D : Type} {s s' : System} {a : Action} {w w' : Service D} {b : ServiceAction D}
  {tx other : Nat} {p : Producer D}

def Service.changesOf (w : Service D) (tx : Nat) : List D :=
  (w.domain.filter (fun change => change.1 == tx)).map (·.2)

def Service.Committed (w : Service D) (tx : Nat) (p : Producer D) : Prop :=
  w.producers tx = some p ∧ p.progress = .committed

/- A record staged directly, or by a transaction that committed. -/
def Service.Stages (w : Service D) (staged : Staged) : Prop :=
  (∃ record ∈ w.direct, record.toStaged = staged) ∨
    ∃ tx p, w.Committed tx p ∧ ∃ record ∈ p.requested, record.toStaged = staged

/- A transaction counts as a whole or not at all, and the broker hears of nothing else. -/
structure Service.Atomic [External] (w : Service D) : Prop where
  changes : ∀ tx p, w.Committed tx p → w.changesOf tx = p.changes
  staged : ∀ tx p, w.Committed tx p → ∀ record ∈ p.requested, ∃ staged,
    Event.staged staged ∈ w.outbox.trace ∧ staged.conflicts record.toStaged = true
  unchanged : ∀ tx, (∀ p, ¬ w.Committed tx p) → w.changesOf tx = []
  sourced : ∀ row ∈ w.outbox.table, w.Stages row.toStaged
  sent : ∀ message ∈ w.outbox.sent, ∃ staged, w.Stages staged ∧ message.Copies staged
  lossless : ∀ staged, Event.staged staged ∈ w.outbox.trace →
    (∃ row ∈ w.outbox.table, row.toStaged = staged ∧
      (row.status = .pending ∨ row.status = .failed)) ∨
      ∃ entry ∈ w.outbox.log, entry.message.dedupId = staged.dedupId

/- Whatever a table, a batch or the broker has of a row, its staging was recorded. -/
def Announced [External] (s : System) : Prop :=
  Stems (fun staged => Event.staged staged ∈ s.trace) s

section Announced

variable [External]

theorem event_stays (taken : s.step a = some s') {event : Event} (member : event ∈ s.trace) :
    event ∈ s'.trace := by
  obtain ⟨events, grown, _⟩ := step_trace taken
  rw [grown]
  exact List.mem_append_left _ member

theorem announced_step (tracked : Tracked s) (announced : Announced s)
    (taken : s.step a = some s') :
    Announced s' := by
  refine stems_step tracked announced (fun _ => event_stays taken) ?_ taken
  rintro record startedAt rfl _ inside
  obtain rfl | ⟨_, _, rfl⟩ := enqueue_cases taken
  · exact announced.rows _ inside
  · exact List.mem_append_right _ List.mem_cons_self

theorem announced_of_reaches {now : Timestamp} {ok : System → Action → Prop}
    (reached : Reaches System.step ok (.initial now) s) : Announced s :=
  reached.invariant_given Announced
    (fun _ before => tracked_of_reaches (tracked_initial now) before) (stems_initial now)
    (fun _ _ _ tracked before _ taken => announced_step tracked before taken)

end Announced

/- A record a transaction asked for runs into a row that was staged, or into a draft of its
own, which is then the record's own or an earlier one with its key. -/
def Service.Backed (w : Service D) (tx : Nat) (record : OutboxRecord) : Prop :=
  (∃ staged, Event.staged staged ∈ w.outbox.trace ∧
    staged.conflicts record.toStaged = true) ∨
    ∃ d ∈ own tx w.drafts, Service.draftClash record d.row = true

structure Service.Accounted (w : Service D) : Prop where
  backed : ∀ tx p, w.producers tx = some p → p.progress ≠ .rolledBack →
    ∀ record ∈ p.requested, w.Backed tx record
  sourced : ∀ staged, Event.staged staged ∈ w.outbox.trace → w.Stages staged
  changes : ∀ tx p, w.Committed tx p → w.changesOf tx = p.changes
  unchanged : ∀ tx, (∀ p, ¬ w.Committed tx p) → w.changesOf tx = []

theorem service_accounted_initial (now : Timestamp) : (Service.initial D now).Accounted where
  backed := by
    intro tx p known
    cases known
  sourced := by
    intro staged member
    cases member
  changes := by
    intro tx p committed
    cases committed.1
  unchanged := fun _ _ => rfl

/- An open transaction is not a committed one, and its moves leave those as they are. -/
theorem open_uncommitted (running : w.active tx = some p) (q : Producer D) :
    ¬ w.Committed tx q := by
  rintro ⟨known, committed⟩
  obtain ⟨known', active⟩ := active_iff.mp running
  obtain rfl := Option.some.inj (known.symm.trans known')
  rw [active] at committed
  cases committed

theorem committed_update {q p' : Producer D} (uncommitted : ∀ r, ¬ w.Committed tx r) :
    (w.withProducer tx q).Committed other p' ↔
      w.Committed other p' ∨ (other = tx ∧ p' = q ∧ q.progress = .committed) := by
  simp only [Service.Committed, withProducer_producers]
  by_cases same : other = tx
  · subst same
    have none_ := uncommitted p'
    simp only [Service.Committed] at none_
    simp only [if_true, Option.some.injEq, none_, false_or, true_and]
    constructor
    · rintro ⟨rfl, committed⟩
      exact ⟨rfl, committed⟩
    · rintro ⟨rfl, committed⟩
      exact ⟨rfl, committed⟩
  · simp [same]

/- What a step that commits nothing may do: committed transactions and the domain stay, and
every new staged row comes from the pool's enqueue. -/
structure Service.Quiet (w w' : Service D) : Prop where
  domain : w'.domain = w.domain
  committed : ∀ tx p, w'.Committed tx p ↔ w.Committed tx p
  direct : ∀ record ∈ w.direct, record ∈ w'.direct
  grown : ∀ event ∈ w.outbox.trace, event ∈ w'.outbox.trace
  fresh : ∀ staged, Event.staged staged ∈ w'.outbox.trace →
    Event.staged staged ∈ w.outbox.trace ∨
    ∃ record ∈ w'.direct, record.toStaged = staged

theorem Service.Accounted.quiet (accounted : w.Accounted) (quiet : w.Quiet w')
    (backed : ∀ tx p, w'.producers tx = some p → p.progress ≠ .rolledBack →
      ∀ record ∈ p.requested, w'.Backed tx record) : w'.Accounted where
  backed := backed
  sourced := by
    intro staged member
    rcases quiet.fresh staged member with old | new
    · rcases accounted.sourced staged old with ⟨record, asked, same⟩ |
        ⟨tx, p, committed, asked⟩
      · exact .inl ⟨record, quiet.direct record asked, same⟩
      · exact .inr ⟨tx, p, (quiet.committed tx p).mpr committed, asked⟩
    · exact .inl new
  changes := by
    intro tx p committed
    rw [Service.changesOf, quiet.domain]
    exact accounted.changes tx p ((quiet.committed tx p).mp committed)
  unchanged := by
    intro tx none_
    rw [Service.changesOf, quiet.domain]
    exact accounted.unchanged tx (fun p committed => none_ p ((quiet.committed tx p).mpr committed))

/-- A step on one producer that leaves the outbox and the domain alone. -/
theorem quiet_update {q : Producer D} {drafts : List (Draft Nat Insertion)}
    (uncommitted : ∀ r, ¬ w.Committed tx r) (still : q.progress ≠ .committed) :
    w.Quiet { w.withProducer tx q with drafts := drafts } where
  domain := rfl
  committed := fun other p' => (committed_update uncommitted).trans (by simp [still])
  direct := fun _ asked => asked
  grown := fun _ inside => inside
  fresh := fun _ inside => .inl inside

section Accounted

variable [External] {Q : Action → Prop}

theorem quiet_outbox {outbox : System} {direct : List OutboxRecord}
    (taken : w.outbox.step a = some outbox) (more : ∀ record ∈ w.direct, record ∈ direct)
    (fresh : ∀ record startedAt, a = .enqueue record startedAt → record ∈ direct) :
    w.Quiet { w with outbox := outbox, direct := direct } where
  domain := rfl
  committed := fun _ _ => Iff.rfl
  direct := more
  grown := fun _ inside => event_stays taken inside
  fresh := by
    intro staged member
    obtain old | ⟨record, startedAt, called, same, _⟩ := step_staged taken member
    · exact .inl old
    · exact .inr ⟨record, fresh record startedAt called, same⟩

omit [External] in
theorem Service.Backed.mono {record : OutboxRecord} (backed : w.Backed tx record)
    (grown : ∀ event ∈ w.outbox.trace, event ∈ w'.outbox.trace)
    (kept : ∀ d ∈ own tx w.drafts, d ∈ own tx w'.drafts) : w'.Backed tx record := by
  rcases backed with ⟨staged, inside, clash⟩ | ⟨d, mine, clash⟩
  · exact .inl ⟨staged, grown _ inside, clash⟩
  · exact .inr ⟨d, kept d mine, clash⟩

omit [External] in
/-- After a step of one producer only what it asked for since has to be accounted for. -/
theorem backed_update {q : Producer D} (accounted : w.Accounted) (running : w.active tx = some p)
    (grown : ∀ event ∈ w.outbox.trace, event ∈ w'.outbox.trace)
    (producers : w'.producers = (w.withProducer tx q).producers)
    (kept : ∀ other, other ≠ tx → ∀ d ∈ own other w.drafts, d ∈ own other w'.drafts)
    (mine : q.progress ≠ .rolledBack → ∀ record ∈ q.requested,
      (record ∈ p.requested → w.Backed tx record) → w'.Backed tx record) :
    ∀ other p', w'.producers other = some p' → p'.progress ≠ .rolledBack →
      ∀ record ∈ p'.requested, w'.Backed other record := by
  intro other p' known alive record asked
  rw [producers, withProducer_producers] at known
  split at known
  · rename_i same
    subst same
    obtain rfl := Option.some.inj known
    obtain ⟨known', active⟩ := active_iff.mp running
    exact mine alive record asked (accounted.backed other p known' (by simp [active]) record)
  · rename_i different
    exact (accounted.backed other p' known alive record asked).mono grown (kept other different)

omit [External] in
theorem changesOf_append (domain : List (Nat × D)) (changes : List D) (tx other : Nat) :
    ((domain ++ changes.map (fun change => (tx, change))).filter (fun c => c.1 == other)).map
      (·.2) =
      (domain.filter (fun c => c.1 == other)).map (·.2) ++ if tx = other then changes else [] := by
  by_cases same : tx = other <;> simp [same, List.filter_map, Function.comp_def]

omit [External] in
/-- A commit turns everything its transaction asked for into staged rows and its changes
into the domain's, and touches no other transaction. -/
theorem accounted_commit (accounted : w.Accounted)
    (asks : ∀ d ∈ w.drafts, w.Asks d.writer d.row.record) (running : w.active tx = some p) :
    Service.Accounted { w.withProducer tx { p with progress := .committed } with
      outbox := w.outbox.adopt ((own tx w.drafts).map (·.row))
      domain := w.domain ++ p.changes.map (fun change => (tx, change))
      drafts := others tx w.drafts } := by
  have uncommitted := open_uncommitted running
  refine ⟨?_, ?_, ?_, ?_⟩
  · refine backed_update accounted running
      (fun _ inside => List.mem_append_left _ inside) rfl ?_ ?_
    · intro other different d mine
      obtain ⟨inside, rfl⟩ := mem_own.mp mine
      exact mem_own.mpr ⟨mem_others.mpr ⟨inside, different⟩, rfl⟩
    · intro _ record asked before
      rcases before asked with ⟨staged, inside, clash⟩ | ⟨d, mine, clash⟩
      · exact .inl ⟨staged, List.mem_append_left _ inside, clash⟩
      · refine .inl ⟨d.row.staged, List.mem_append_right _ ?_, clash⟩
        exact List.mem_map.mpr ⟨d.row, List.mem_map_of_mem mine, rfl⟩
  · intro staged member
    rcases List.mem_append.mp member with old | new
    · rcases accounted.sourced staged old with direct | ⟨other, p', committed, asked⟩
      · exact .inl direct
      · exact .inr ⟨other, p', (committed_update uncommitted).mpr (.inl committed), asked⟩
    · obtain ⟨i, inside, same⟩ := List.mem_map.mp new
      obtain ⟨d, mine, rfl⟩ := List.mem_map.mp inside
      obtain ⟨drafted, rfl⟩ := mem_own.mp mine
      obtain ⟨p', running', asked⟩ := asks d drafted
      obtain rfl := Option.some.inj (running.symm.trans running')
      exact .inr ⟨d.writer, _, (committed_update uncommitted).mpr (.inr ⟨rfl, rfl, rfl⟩),
        d.row.record, asked, Event.staged.inj same⟩
  · intro other p' committed
    refine (changesOf_append w.domain p.changes tx other).trans ?_
    rcases (committed_update uncommitted).mp committed with old | ⟨rfl, rfl, _⟩
    · have different : tx ≠ other := fun same => uncommitted p' (same ▸ old)
      rw [if_neg different, List.append_nil]
      exact accounted.changes other p' old
    · rw [if_pos rfl]
      exact congrArg (· ++ p.changes) (accounted.unchanged other uncommitted)
  · intro other none_
    have different : tx ≠ other := by
      rintro rfl
      exact none_ _ ((committed_update uncommitted).mpr (.inr ⟨rfl, rfl, rfl⟩))
    refine (changesOf_append w.domain p.changes tx other).trans ?_
    rw [if_neg different, List.append_nil]
    exact accounted.unchanged other
      (fun p' committed => none_ p' ((committed_update uncommitted).mpr (.inl committed)))

theorem service_accounted_step (announced : Announced w.outbox) (accounted : w.Accounted)
    (asks : ∀ d ∈ w.drafts, w.Asks d.writer d.row.record) (taken : w.step b = some w') :
    w'.Accounted := by
  cases Service.step_moves taken with
  | idle => exact accounted
  | @started tx fresh =>
    have uncommitted : ∀ r, ¬ w.Committed tx r := by
      rintro r ⟨known, _⟩
      cases fresh.symm.trans known
    refine accounted.quiet (quiet_update uncommitted (by simp)) ?_
    intro other p' known alive record asked
    simp only [withProducer_producers] at known
    split at known
    · obtain rfl := Option.some.inj known
      cases asked
    · exact accounted.backed other p' known alive record asked
  | changed running =>
    have active := (active_iff.mp running).2
    refine accounted.quiet (quiet_update (open_uncommitted running) (by simp [active])) ?_
    exact backed_update accounted running (fun _ inside => inside) rfl (fun _ _ _ mine => mine)
      (fun _ record asked before => before asked)
  | @yielded tx p record running found =>
    have active := (active_iff.mp running).2
    refine accounted.quiet (quiet_update (open_uncommitted running) (by simp [active])) ?_
    refine backed_update accounted running (fun _ inside => inside) rfl (fun _ _ _ mine => mine) ?_
    intro _ record' asked before
    rcases List.mem_append.mp asked with old | new
    · exact before old
    · obtain rfl := List.mem_singleton.mp new
      rcases found with committed | drafted
      · obtain ⟨row, inside, clash⟩ := List.any_eq_true.mp committed
        exact .inl ⟨row.toStaged, announced.rows row inside, clash⟩
      · exact .inr drafted
  | @drafted tx p record running valid clear alone =>
    have active := (active_iff.mp running).2
    refine accounted.quiet (quiet_update (open_uncommitted running) (by simp [active])) ?_
    have kept (other : Nat) (d : Draft Nat Insertion) (mine : d ∈ own other w.drafts) :
        d ∈ own other (w.drafts ++ [⟨tx, ⟨record, p.startedAt⟩⟩]) := by
      simp only [mem_own, List.mem_append] at mine ⊢
      exact ⟨.inl mine.1, mine.2⟩
    refine backed_update accounted running (fun _ inside => inside) rfl
      (fun other _ => kept other) ?_
    intro _ record' asked before
    rcases List.mem_append.mp asked with old | new
    · exact (before old).mono (fun _ inside => inside) (kept tx)
    · obtain rfl := List.mem_singleton.mp new
      refine .inr ⟨⟨tx, record', p.startedAt⟩, mem_own.mpr ⟨?_, rfl⟩, ?_⟩
      · exact List.mem_append_right _ List.mem_cons_self
      · simp [Service.draftClash, Insertion.staged, Staged.conflicts]
  | @aborted tx p _ running =>
    refine accounted.quiet (quiet_update (open_uncommitted running) (by simp)) ?_
    refine backed_update accounted running (fun _ inside => inside) rfl ?_ (by simp)
    intro other different d mine
    obtain ⟨inside, rfl⟩ := mem_own.mp mine
    exact mem_own.mpr ⟨mem_others.mpr ⟨inside, different⟩, rfl⟩
  | @committed tx p running => exact accounted_commit accounted asks running
  | direct free enqueued =>
    refine accounted.quiet
      (quiet_outbox enqueued (fun _ asked => List.mem_append_left _ asked) ?_) ?_
    · intro record startedAt same
      obtain ⟨rfl, _⟩ := Action.enqueue.inj same
      exact List.mem_append_right _ List.mem_cons_self
    · intro tx p known alive record asked
      exact (accounted.backed tx p known alive record asked).mono
        (fun _ inside => event_stays enqueued inside) (fun _ mine => mine)
  | outbox other moved =>
    refine accounted.quiet (quiet_outbox moved (fun _ asked => asked)
      (fun _ _ same => absurd same (other _ _))) ?_
    intro tx p known alive record asked
    exact (accounted.backed tx p known alive record asked).mono
      (fun _ inside => event_stays moved inside) (fun _ mine => mine)

/-- Whatever producers, relays and the broker do in whatever order: a transaction's domain
changes and the messages it asked for take effect together when it commits, none of them
does otherwise, and the outbox runs as it would if each commit enqueued its records. -/
theorem transactional_outbox {now : Timestamp}
    (reached : Reaches Service.step (fun _ b => b.Within Action.Builds) (.initial D now) w) :
    Reaches System.step (fun _ a => a.Builds) (.initial now) w.outbox ∧ w.Atomic := by
  have path := (service_refines reached).1
  have announced := announced_of_reaches path
  have known (x : Service D)
      (before : Reaches Service.step (fun _ b => b.Within Action.Builds) (.initial D now) x) :
      Announced x.outbox ∧ ∀ d ∈ x.drafts, x.Asks d.writer d.row.record := by
    obtain ⟨front, drafted⟩ := service_refines before
    exact ⟨announced_of_reaches front, drafted.asked⟩
  have accounted : w.Accounted := reached.invariant_given Service.Accounted known
    (service_accounted_initial now)
    (fun _ _ _ known before _ taken => service_accounted_step known.1 before known.2 taken)
  refine ⟨path, accounted.changes, ?_, accounted.unchanged, ?_, ?_, ?_⟩
  · intro tx p committed record asked
    rcases accounted.backed tx p committed.1 (by simp [committed.2]) record asked with
      staged | ⟨d, mine, _⟩
    · exact staged
    · -- a committed transaction has no drafts left
      obtain ⟨inside, rfl⟩ := mem_own.mp mine
      obtain ⟨p', running, _⟩ := (service_refines reached).2.asked d inside
      exact absurd committed (open_uncommitted running p)
  · intro row member
    exact accounted.sourced _ (announced.rows row member)
  · intro message member
    obtain ⟨staged, inside, copies⟩ := announced.sent message member
    exact ⟨staged, accounted.sourced staged inside, copies⟩
  · intro staged inside
    exact (lossless_of_reaches (fun _ _ builds => builds) path inside).imp_right stored_iff.mp

end Accounted

section Sample

attribute [local instance] Sample.external

open Sample

/- The first transaction commits; the second rolls back while the relay drains. -/
def producersRun : List (ServiceAction String) :=
  [.start 1, .start 2, .change 1 "order 1 paid", .enqueueTx 1 order1 none,
    .change 2 "order 2 paid", .enqueueTx 2 order2 none, .commit 1,
    .outbox (.claim 7 .new plan .ok), .outbox (.database 7 .ok 0), .rollback 2,
    .outbox (.publish 7), .outbox (.append (message order1)), .outbox (.answer 7 (.ok ())),
    .outbox (.database 7 .ok 0)]

theorem producersRun_within : ∀ b ∈ producersRun, b.Within Action.Builds := by
  have built : order1.Built ∧ order2.Built := ⟨.pending _ _ _ _ _, .pending _ _ _ _ _⟩
  simp [producersRun, ServiceAction.Within, Action.Builds, built]

theorem producersRun_ends : (run Service.step (.initial String 0) producersRun).map
    (fun w => (w.domain, w.outbox.sent, w.outbox.table.map (fun row => (row.id, row.status)))) =
      some ([(1, "order 1 paid")], [message order1], [(1, .published)]) := by
  decide +kernel

theorem transactional_outbox_rolled_back :
    ∃ w, run Service.step (.initial String 0) producersRun = some w ∧
      w.domain = [(1, "order 1 paid")] ∧ w.outbox.sent = [message order1] ∧ w.Atomic := by
  obtain ⟨w, taken, ends⟩ := Option.map_eq_some_iff.mp producersRun_ends
  obtain ⟨domain, sent, _⟩ := by simpa only [Prod.mk.injEq] using ends
  have reached := reaches_of_run (fun _ b => b.Within Action.Builds) _ taken
    (fun _ => producersRun_within)
  exact ⟨w, taken, domain, sent, (transactional_outbox reached).2⟩

end Sample

end FiduciaMessaging
