import FiduciaMessaging.Outbox.Delivery
import FiduciaMessaging.Outbox.Leases
import FiduciaMessaging.Foundations.Drafts

/-! Producers that stage inside their own transactions. A transaction changes the domain
and inserts outbox rows; nobody else sees either before it commits, and then sees both. -/
namespace FiduciaMessaging

open Runs Drafts

variable {D : Type}

/- What `enqueue_outbox_tx` inserts: `available_at` is the start of the transaction. -/
structure Insertion where
  record : OutboxRecord
  startedAt : Timestamp

def Insertion.row (insertion : Insertion) : OutboxRow := insertion.record.row insertion.startedAt

def Insertion.staged (insertion : Insertion) : Staged := insertion.record.toStaged

inductive Progress where
  | active | committed | rolledBack
  deriving DecidableEq

/- A transaction of a producer: what it did to the domain, and the records for which
`enqueue_outbox_tx` returned `Ok`. -/
structure Producer (D : Type) where
  startedAt : Timestamp
  progress : Progress
  changes : List D
  requested : List OutboxRecord

/- The database of a producing service with the relays and the broker around it. A domain
change is kept with its transaction; `direct` are the records `enqueue_outbox` took. -/
structure Service (D : Type) where
  outbox : System
  domain : List (Nat × D)
  drafts : List (Draft Nat Insertion)
  producers : Nat → Option (Producer D)
  direct : List OutboxRecord

def Service.initial (D : Type) (now : Timestamp) : Service D where
  outbox := .initial now
  domain := []
  drafts := []
  producers := fun _ => none
  direct := []

/- A `fault` is a database error of the insert, which aborts its transaction. Everything
but a producer's transaction is a step of the outbox. -/
inductive ServiceAction (D : Type) where
  | start (tx : Nat)
  | change (tx : Nat) (change : D)
  | enqueueTx (tx : Nat) (record : OutboxRecord) (fault : Option String)
  | commit (tx : Nat)
  | rollback (tx : Nat)
  | outbox (action : Action)

/- The rows of a committed transaction appear together. -/
def System.adopt (s : System) (insertions : List Insertion) : System :=
  { s with table := s.table ++ insertions.map Insertion.row
           trace := s.trace ++ insertions.map (fun insertion => .staged insertion.staged) }

namespace Service

def active (w : Service D) (tx : Nat) : Option (Producer D) :=
  (w.producers tx).filter (fun p => p.progress == .active)

def withProducer (w : Service D) (tx : Nat) (p : Producer D) : Service D :=
  { w with producers := Function.update w.producers tx (some p) }

def start (w : Service D) (tx : Nat) : Option (Service D) :=
  match w.producers tx with
  | none => some (w.withProducer tx ⟨w.outbox.now, .active, [], []⟩)
  | some _ => none

def change (w : Service D) (tx : Nat) (change : D) : Option (Service D) :=
  (w.active tx).map fun p => w.withProducer tx { p with changes := p.changes ++ [change] }

def abort (w : Service D) (tx : Nat) (p : Producer D) : Service D :=
  { w.withProducer tx { p with progress := .rolledBack } with drafts := others tx w.drafts }

def rollback (w : Service D) (tx : Nat) : Option (Service D) := (w.active tx).map (w.abort tx)

def commit (w : Service D) (tx : Nat) : Option (Service D) :=
  (w.active tx).map fun p => { w.withProducer tx { p with progress := .committed } with
    outbox := w.outbox.adopt ((own tx w.drafts).map (·.row))
    domain := w.domain ++ p.changes.map (fun change => (tx, change))
    drafts := others tx w.drafts }

/- Drafts of any transaction whose unique columns an insert of the record runs into. -/
def draftClash (record : OutboxRecord) (insertion : Insertion) : Bool :=
  insertion.staged.conflicts record.toStaged

def tableClash (w : Service D) (record : OutboxRecord) : Bool :=
  w.outbox.table.any (fun row => row.toStaged.conflicts record.toStaged)

section Enqueue

variable [External]

/- A record that fails validation is refused before the database is asked. -/
def enqueueTx (w : Service D) (tx : Nat) (record : OutboxRecord) (fault : Option String) :
    Option (Service D) :=
  (w.active tx).bind fun p =>
    match record.validate, fault with
    | .error _, _ => some w
    | .ok (), some _ => some (w.abort tx p)
    | .ok (), none =>
      let requesting := w.withProducer tx { p with requested := p.requested ++ [record] }
      match serve (draftClash record) (w.tableClash record) tx w.drafts with
      | .waits => none
      | .yields => some requesting
      | .inserts =>
        some { requesting with drafts := w.drafts ++ [⟨tx, ⟨record, p.startedAt⟩⟩] }

/- The pool's own enqueue waits for an open transaction as any insert does. -/
def enqueue (w : Service D) (record : OutboxRecord) (startedAt : Timestamp) : Option (Service D) :=
  match record.validate with
  | .error _ => (w.outbox.step (.enqueue record startedAt)).map fun outbox =>
    { w with outbox := outbox }
  | .ok () =>
    if w.drafts.any (fun d => draftClash record d.row) then none
    else (w.outbox.step (.enqueue record startedAt)).map fun outbox =>
      { w with outbox := outbox, direct := w.direct ++ [record] }

def step (w : Service D) : ServiceAction D → Option (Service D)
  | .start tx => w.start tx
  | .change tx change => w.change tx change
  | .enqueueTx tx record fault => w.enqueueTx tx record fault
  | .commit tx => w.commit tx
  | .rollback tx => w.rollback tx
  | .outbox (.enqueue record startedAt) => w.enqueue record startedAt
  | .outbox action => (w.outbox.step action).map fun outbox => { w with outbox := outbox }

end Enqueue

end Service

/- What a step may enqueue or do to the outbox, whoever enqueues. -/
def ServiceAction.Within (Q : Action → Prop) : ServiceAction D → Prop
  | .enqueueTx _ record _ => ∀ startedAt, Q (.enqueue record startedAt)
  | .outbox action => Q action
  | _ => True

variable {s s' : System} {a : Action} {w w' : Service D} {b : ServiceAction D} {tx other : Nat}
  {p : Producer D}

@[simp] theorem withProducer_producers : (w.withProducer tx p).producers other =
    if other = tx then some p else w.producers other := by
  simp [Service.withProducer, Function.update_apply]

theorem active_iff : w.active tx = some p ↔ w.producers tx = some p ∧ p.progress = .active := by
  simp [Service.active, Option.filter_eq_some_iff]

theorem conflicts_comm (a b : Staged) : a.conflicts b = b.conflicts a := by
  simp only [Staged.conflicts, Bool.beq_comm]

/- The rows a transaction commits are the rows its records would enqueue one by one. -/

theorem adopt_cons (insertion : Insertion) (rest : List Insertion) :
    s.adopt (insertion :: rest) = (s.adopt [insertion]).adopt rest := by
  simp [System.adopt]

section Adopt

variable [External]

theorem enqueue_clear {record : OutboxRecord} {startedAt : Timestamp}
    (started : startedAt ≤ s.now)
    (valid : record.validate = .ok ())
    (clear : ∀ row ∈ s.table, row.toStaged.conflicts record.toStaged = false) :
    s.step (.enqueue record startedAt) = some (s.adopt [⟨record, startedAt⟩]) := by
  have free : s.table.any (fun row => row.toStaged.conflicts record.toStaged) = false := by
    simpa using clear
  simp [System.step, System.enqueue, started, insertOutboxRow, valid, RowSet.insertUnless, free,
    bind, Except.bind, pure, Except.pure, System.adopt, Insertion.row, Insertion.staged]

theorem adopt_run (insertions : List Insertion)
    (ready : ∀ i ∈ insertions, i.record.validate = .ok () ∧ i.startedAt ≤ s.now)
    (clear : ∀ i ∈ insertions, ∀ row ∈ s.table, row.toStaged.conflicts i.staged = false)
    (among : insertions.Pairwise (fun i j => i.staged.conflicts j.staged = false)) :
    run System.step s (insertions.map (fun i => .enqueue i.record i.startedAt)) =
      some (s.adopt insertions) := by
  induction insertions generalizing s with
  | nil => simp [run, System.adopt]
  | cons i rest ih =>
    obtain ⟨apart, among⟩ := List.pairwise_cons.mp among
    obtain ⟨valid, started⟩ := ready i List.mem_cons_self
    have first := enqueue_clear started valid (clear i List.mem_cons_self)
    rw [List.map_cons, run_cons, first, Option.bind_some, adopt_cons i rest]
    refine ih (fun j later => ready j (List.mem_cons_of_mem _ later)) ?_ among
    intro j later row inside
    rcases List.mem_append.mp inside with old | new
    · exact clear j (List.mem_cons_of_mem _ later) row old
    · rw [List.mem_singleton.mp new]
      exact apart j later

end Adopt

/- Everything one step can do. -/
inductive Service.Moves [External] (w : Service D) : ServiceAction D → Service D → Prop where
  | idle {b : ServiceAction D} : Moves w b w
  | started {tx : Nat} : w.producers tx = none →
      Moves w (.start tx) (w.withProducer tx ⟨w.outbox.now, .active, [], []⟩)
  | changed {tx : Nat} {p : Producer D} {change : D} : w.active tx = some p →
      Moves w (.change tx change) (w.withProducer tx { p with changes := p.changes ++ [change] })
  | yielded {tx : Nat} {p : Producer D} {record : OutboxRecord} : w.active tx = some p →
      (w.tableClash record = true ∨ ∃ d ∈ own tx w.drafts, draftClash record d.row = true) →
      Moves w (.enqueueTx tx record none)
        (w.withProducer tx { p with requested := p.requested ++ [record] })
  | drafted {tx : Nat} {p : Producer D} {record : OutboxRecord} : w.active tx = some p →
      record.validate = .ok () → w.tableClash record = false →
      (∀ d ∈ w.drafts, draftClash record d.row = false) →
      Moves w (.enqueueTx tx record none)
        { w.withProducer tx { p with requested := p.requested ++ [record] } with
          drafts := w.drafts ++ [⟨tx, ⟨record, p.startedAt⟩⟩] }
  | aborted {tx : Nat} {p : Producer D} {b : ServiceAction D} : w.active tx = some p →
      Moves w b (w.abort tx p)
  | committed {tx : Nat} {p : Producer D} : w.active tx = some p →
      Moves w (.commit tx) { w.withProducer tx { p with progress := .committed } with
        outbox := w.outbox.adopt ((own tx w.drafts).map (·.row))
        domain := w.domain ++ p.changes.map (fun change => (tx, change))
        drafts := others tx w.drafts }
  | direct {record : OutboxRecord} {startedAt : Timestamp} {outbox : System} :
      (∀ d ∈ w.drafts, draftClash record d.row = false) →
      w.outbox.step (.enqueue record startedAt) = some outbox →
      Moves w (.outbox (.enqueue record startedAt))
        { w with outbox := outbox, direct := w.direct ++ [record] }
  | outbox {action : Action} {outbox : System} :
      (∀ record startedAt, action ≠ .enqueue record startedAt) →
      w.outbox.step action = some outbox → Moves w (.outbox action) { w with outbox := outbox }

theorem Service.enqueueTx_moves [External] {record : OutboxRecord} {fault : Option String}
    (taken : w.enqueueTx tx record fault = some w') : w.Moves (.enqueueTx tx record fault) w' := by
  unfold Service.enqueueTx at taken
  obtain ⟨p, running, result⟩ := Option.bind_eq_some_iff.mp taken
  clear taken
  split at result
  · exact Option.some.inj result ▸ .idle
  · exact Option.some.inj result ▸ .aborted running
  · rename_i valid
    dsimp only at result
    split at result
    · contradiction
    · rename_i served
      exact Option.some.inj result ▸ .yielded running (serve_yields served)
    · rename_i served
      obtain ⟨clear, alone⟩ := serve_inserts served
      exact Option.some.inj result ▸ .drafted running valid clear alone

theorem Service.enqueue_moves [External] {record : OutboxRecord} {startedAt : Timestamp}
    (taken : w.enqueue record startedAt = some w') :
    w.Moves (.outbox (.enqueue record startedAt)) w' := by
  unfold Service.enqueue at taken
  split at taken
  · rename_i refused
    obtain ⟨outbox, enqueued, rfl⟩ := Option.map_eq_some_iff.mp taken
    obtain rfl | ⟨valid, _⟩ := enqueue_cases enqueued
    · exact .idle
    · rw [refused] at valid
      cases valid
  · split at taken
    · contradiction
    · rename_i free
      obtain ⟨outbox, enqueued, rfl⟩ := Option.map_eq_some_iff.mp taken
      exact .direct (by simpa using free) enqueued

theorem Service.step_moves [External] (taken : w.step b = some w') : w.Moves b w' := by
  unfold Service.step at taken
  split at taken
  · unfold Service.start at taken
    split at taken
    · rename_i fresh
      exact Option.some.inj taken ▸ .started fresh
    · contradiction
  · obtain ⟨p, running, rfl⟩ := Option.map_eq_some_iff.mp taken
    exact .changed running
  · exact Service.enqueueTx_moves taken
  · obtain ⟨p, running, rfl⟩ := Option.map_eq_some_iff.mp taken
    exact .committed running
  · obtain ⟨p, running, rfl⟩ := Option.map_eq_some_iff.mp taken
    exact .aborted running
  · exact Service.enqueue_moves taken
  · rename_i other
    obtain ⟨outbox, moved, rfl⟩ := Option.map_eq_some_iff.mp taken
    exact .outbox other moved

/- The open transactions of a state that differs in one producer. -/

theorem active_update (other : Nat) : (w.withProducer tx p).active other =
    if other = tx then (if p.progress = .active then some p else none) else w.active other := by
  simp only [Service.active, withProducer_producers]
  split
  · simp [Option.filter]
  · rfl

/- The transaction is open and asked for the record. -/
def Service.Asks (w : Service D) (tx : Nat) (record : OutboxRecord) : Prop :=
  ∃ p, w.active tx = some p ∧ record ∈ p.requested

theorem Service.Asks.self {record : OutboxRecord} (open_ : p.progress = .active)
    (asked : record ∈ p.requested) : (w.withProducer tx p).Asks tx record :=
  ⟨p, by simp [active_update, open_], asked⟩

theorem Service.Asks.update {q : Producer D} {record : OutboxRecord} (asks : w.Asks other record)
    (running : w.active tx = some p) (open_ : q.progress = .active)
    (more : ∀ r ∈ p.requested, r ∈ q.requested) :
    (w.withProducer tx q).Asks other record := by
  obtain ⟨p', running', asked⟩ := asks
  by_cases same : other = tx
  · subst same
    obtain rfl := Option.some.inj (running.symm.trans running')
    exact ⟨q, by simp [active_update, open_], more record asked⟩
  · exact ⟨p', by simp [active_update, same, running'], asked⟩

theorem Service.Asks.apart {q : Producer D} {record : OutboxRecord} (asks : w.Asks other record)
    (different : other ≠ tx) : (w.withProducer tx q).Asks other record := by
  obtain ⟨p', running', asked⟩ := asks
  exact ⟨p', by simp [active_update, different, running'], asked⟩

/- Drafts are what open transactions will commit: fit to be staged, and in conflict with
nothing that is committed or drafted. -/
structure Service.Drafted [External] (Q : Action → Prop) (w : Service D) : Prop where
  apart : Apart Staged.conflicts Insertion.staged (w.outbox.table.map (·.toStaged)) w.drafts
  ready : ∀ d ∈ w.drafts, d.row.record.validate = .ok () ∧ d.row.startedAt ≤ w.outbox.now
  within : ∀ d ∈ w.drafts, Q (.enqueue d.row.record d.row.startedAt)
  asked : ∀ d ∈ w.drafts, w.Asks d.writer d.row.record
  begun : ∀ tx p, w.active tx = some p → p.startedAt ≤ w.outbox.now

theorem begun_update {now : Timestamp} {q : Producer D}
    (begun : ∀ tx p, w.active tx = some p → p.startedAt ≤ now)
    (started : q.startedAt ≤ now) :
    ∀ other p', (w.withProducer tx q).active other = some p' → p'.startedAt ≤ now := by
  intro other p' running
  rw [active_update] at running
  split at running
  · split at running
    · exact Option.some.inj running ▸ started
    · contradiction
  · exact begun other p' running

section Drafted

variable [External] {Q : Action → Prop}

theorem drafted_initial (now : Timestamp) : (Service.initial D now).Drafted Q where
  apart := by
    refine ⟨?_, List.Pairwise.nil⟩
    intro d member
    cases member
  ready := by
    intro d member
    cases member
  within := by
    intro d member
    cases member
  asked := by
    intro d member
    cases member
  begun := by
    intro tx p running
    cases running

/-- An outbox step brings no staged columns but those of the record it enqueues. -/
theorem staged_columns (tracked : Tracked s) (taken : s.step a = some s') {k : Staged}
    (inside : k ∈ s'.table.map (·.toStaged)) : k ∈ s.table.map (·.toStaged) ∨
      ∃ record startedAt, a = .enqueue record startedAt ∧ k = record.toStaged := by
  obtain ⟨row', member, rfl⟩ := List.mem_map.mp inside
  obtain ⟨row, before, moved⟩ | ⟨record, startedAt, called, rfl, _⟩ :=
    row_origin tracked.apart taken member
  · exact .inl (List.mem_map.mpr ⟨row, before, moved.toStaged.symm⟩)
  · exact .inr ⟨record, startedAt, called, rfl⟩

theorem drafted_outbox (tracked : Tracked w.outbox) (drafted : w.Drafted Q) {outbox : System}
    (taken : w.outbox.step a = some outbox) {direct : List OutboxRecord}
    (free : ∀ record startedAt, a = .enqueue record startedAt →
      ∀ d ∈ w.drafts, Service.draftClash record d.row = false) :
    ({ w with outbox := outbox, direct := direct } : Service D).Drafted Q where
  apart := by
    refine drafted.apart.committing (fun k inside => ?_)
    rcases staged_columns tracked taken inside with old | ⟨record, startedAt, called, rfl⟩
    · exact .inl old
    · refine .inr (fun d member => ?_)
      rw [conflicts_comm]
      exact free record startedAt called d member
  ready := fun d member => ⟨(drafted.ready d member).1,
    le_trans (drafted.ready d member).2 (now_step taken)⟩
  within := drafted.within
  asked := drafted.asked
  begun := fun tx p running => le_trans (drafted.begun tx p running) (now_step taken)

theorem drafted_step (tracked : Tracked w.outbox) (drafted : w.Drafted Q) (within : b.Within Q)
    (taken : w.step b = some w') : w'.Drafted Q := by
  cases Service.step_moves taken with
  | idle => exact drafted
  | started fresh =>
    have other (d : Draft Nat Insertion) (member : d ∈ w.drafts) {tx : Nat}
        (fresh : w.producers tx = none) : d.writer ≠ tx := by
      rintro rfl
      obtain ⟨p, running, _⟩ := drafted.asked d member
      cases fresh.symm.trans (active_iff.mp running).1
    exact ⟨drafted.apart, drafted.ready, drafted.within,
      fun d member => (drafted.asked d member).apart (other d member fresh),
      begun_update drafted.begun le_rfl⟩
  | changed running =>
    have open_ := (active_iff.mp running).2
    have started := drafted.begun _ _ running
    exact ⟨drafted.apart, drafted.ready, drafted.within,
      fun d member => (drafted.asked d member).update running open_ (fun _ asked => asked),
      begun_update drafted.begun started⟩
  | yielded running =>
    have open_ := (active_iff.mp running).2
    have started := drafted.begun _ _ running
    exact ⟨drafted.apart, drafted.ready, drafted.within,
      fun d member => (drafted.asked d member).update running open_
        (fun _ asked => List.mem_append_left _ asked),
      begun_update drafted.begun started⟩
  | @drafted tx p record running valid clear alone =>
    have open_ := (active_iff.mp running).2
    have started := drafted.begun _ _ running
    refine ⟨drafted.apart.insert ?_ alone, ?_, ?_, ?_, begun_update drafted.begun started⟩
    · intro k inside
      obtain ⟨row, member, rfl⟩ := List.mem_map.mp inside
      simp only [Service.tableClash, List.any_eq_false, Bool.not_eq_true] at clear
      exact clear row member
    · intro d member
      rcases List.mem_append.mp member with old | new
      · exact drafted.ready d old
      · rw [List.mem_singleton.mp new]
        exact ⟨valid, started⟩
    · intro d member
      rcases List.mem_append.mp member with old | new
      · exact drafted.within d old
      · rw [List.mem_singleton.mp new]
        exact within p.startedAt
    · intro d member
      rcases List.mem_append.mp member with old | new
      · exact (drafted.asked d old).update running open_
          (fun _ asked => List.mem_append_left _ asked)
      · rw [List.mem_singleton.mp new]
        exact Service.Asks.self open_ (List.mem_append_right _ List.mem_cons_self)
  | aborted running =>
    have started := drafted.begun _ _ running
    exact ⟨drafted.apart.drop _, fun d member => drafted.ready d (mem_others.mp member).1,
      fun d member => drafted.within d (mem_others.mp member).1,
      fun d member => (drafted.asked d (mem_others.mp member).1).apart (mem_others.mp member).2,
      begun_update drafted.begun started⟩
  | @committed tx p running =>
    have started := drafted.begun _ _ running
    refine ⟨?_, fun d member => drafted.ready d (mem_others.mp member).1,
      fun d member => drafted.within d (mem_others.mp member).1,
      fun d member => (drafted.asked d (mem_others.mp member).1).apart (mem_others.mp member).2,
      begun_update drafted.begun started⟩
    have joined := drafted.apart.commit conflicts_comm tx
    simpa [System.adopt, Insertion.row, Insertion.staged, OutboxRecord.row, Function.comp_def]
      using joined
  | direct free enqueued => exact drafted_outbox tracked drafted enqueued (fun _ _ same => by
      obtain ⟨rfl, _⟩ := Action.enqueue.inj same
      exact free)
  | outbox other moved =>
    exact drafted_outbox tracked drafted moved (fun _ _ same => absurd same (other _ _))

/-- The outbox part of a run with transactional producers is a run of the outbox alone, in
which each commit enqueues its records one after another. -/
theorem service_refines {now : Timestamp}
    (reached : Reaches Service.step (fun _ b => b.Within Q) (.initial D now) w) :
    Reaches System.step (fun _ a => Q a) (.initial now) w.outbox ∧ w.Drafted Q := by
  refine reached.invariant (fun x =>
    Reaches System.step (fun _ a => Q a) (.initial now) x.outbox ∧
    x.Drafted Q) ⟨.refl, drafted_initial now⟩ ?_
  rintro x b y ⟨path, drafted⟩ within taken
  have tracked := tracked_of_reaches (tracked_initial now) path
  refine ⟨?_, drafted_step tracked drafted within taken⟩
  cases Service.step_moves taken with
  | @committed tx p running =>
    have runs := adopt_run (s := x.outbox) ((own tx x.drafts).map (·.row)) ?_ ?_ ?_
    · refine path.trans (reaches_of_run _ _ runs ?_)
      simp only [List.map_map, List.mem_map, Function.comp_apply]
      rintro _ _ ⟨d, mine, rfl⟩
      exact drafted.within d (mem_own.mp mine).1
    · intro i inside
      obtain ⟨d, mine, rfl⟩ := List.mem_map.mp inside
      exact drafted.ready d (mem_own.mp mine).1
    · intro i inside row member
      obtain ⟨d, mine, rfl⟩ := List.mem_map.mp inside
      exact drafted.apart.clear d (mem_own.mp mine).1 _ (List.mem_map_of_mem member)
    · exact List.pairwise_map.mpr (drafted.apart.among.sublist List.filter_sublist)
  | direct free enqueued => exact path.tail within enqueued
  | outbox other moved => exact path.tail within moved
  | _ => exact path

end Drafted

end FiduciaMessaging
