import FiduciaMessaging.Compat.Serial

/-! What the acknowledgements of compat batches add up to. Batches that were rolled back may
have published a row before; among those that committed, one acknowledgement stands behind
each published row and none behind any other. -/
namespace FiduciaMessaging

open RowSet Runs

def Handed.acknowledges (id : Uuid) (handed : Handed) : Bool :=
  handed.messageId == id && handed.answer.isOk

def CompatRow.publishes (id : Uuid) (row : CompatRow) : Bool :=
  row.messageId == id && row.publishedAt.isSome

/- The acknowledgements in batches that committed. -/
def acknowledgements (ended : List CompatEnded) (id : Uuid) : Nat :=
  ((ended.filter (·.committed)).flatMap (·.log)).countP (Handed.acknowledges id)

/- What no statement changes about a row. -/
structure CompatRow.Same (row row' : CompatRow) : Prop where
  id : row'.messageId = row.messageId
  tenant : row'.tenantId = row.tenantId
  subject : row'.subject = row.subject
  envelope : row'.envelope = row.envelope

section Once

variable [External] {h h' : CompatHistory} {table : CompatTable} {rows writes : List CompatRow}
  {row w : CompatRow} {now : Timestamp} {log : List Handed} {n : Nat} {id : Uuid}
  {e : CompatEnded} {s : CompatSystem}

/- How a batch that is over left the table: as it was, or with the rows it settled. -/
def Leaves (table after : CompatTable) (e : CompatEnded) : Prop :=
  (e.committed = false ∧ after = table) ∨
    ∃ now rows writes n, e.committed = true ∧ Settling now rows writes e.log n ∧
      (rows.map (·.messageId)).Nodup ∧
      (∀ row ∈ rows, row ∈ table.rows ∧ row.publishedAt = none) ∧
      after = table.install writes

/-- A batch made on its own failed and changed nothing, or it settled what it claimed. -/
theorem alone_settles {P : Type} (publisher : CompatOutboxPublisher) (table : CompatTable)
    (now : Timestamp) (plan : Plan) (fails : Nat → Option String)
    (broker : CompatBroker P) (p : P)
    {batch : CompatReturn P}
    (made : publisher.publishBatch table (.alone publisher table now plan fails) broker p = batch) :
    (batch.result.isOk = false ∧ batch.table = table) ∨
      batch.result.isOk = true ∧ ∃ writes n,
        Settling now (compatClaim table now publisher.batchSize plan) writes batch.log n ∧
        batch.table = table.install writes := by
  rcases publishBatch_cases publisher table (.alone publisher table now plan fails) broker p with
    ⟨call, error, back⟩ | ⟨n, call, settled, done⟩
  · obtain rfl := back.symm.trans made
    exact .inl ⟨rfl, rfl⟩
  · obtain rfl := done.symm.trans made
    obtain ⟨writes, log, k, _, writes', log', settling⟩ := publishRows_settles
      (fun row picked => (mem_compatClaim picked).1) (compatClaim_distinct _ _ _ _)
      (by simp) settled
    simp only [List.append_nil, List.nil_append] at writes' log'
    refine .inr ⟨rfl, writes, k, ?_, ?_⟩
    · rw [log']
      exact settling
    · rw [writes']
      rfl

/-- A turn adds a new row, or ends a batch that handed over only rows not published yet. -/
theorem turn_cases (turn : CompatTurn h h') :
    (h'.ended = h.ended ∧ ∃ row, row.publishedAt = none ∧
      h'.table.rows = h.table.rows ++ [row]) ∨
    ∃ e, h'.ended = h.ended ++ [e] ∧ Leaves h.table h'.table e ∧
      ∀ handed ∈ e.log, ∃ row ∈ h.table.rows, row.publishedAt = none ∧
        row.check = .ok () ∧
        ∃ answer, handed = row.handed answer := by
  have claimed (table : CompatTable) (now : Timestamp) (limit : Int) (plan : Plan) :
      ∀ row ∈ compatClaim table now limit plan, row ∈ table.rows ∧
        row.publishedAt = none := by
    intro row picked
    obtain ⟨inside, due, _⟩ := mem_compatClaim picked
    exact ⟨inside, (due_iff.mp due).1⟩
  cases turn with
  | enqueued accepted =>
    obtain ⟨body, _, rows⟩ := enqueue_rows accepted
    exact .inl ⟨rfl, _, rfl, rows⟩
  | @returned P publisher table now plan fails broker p batch ended made =>
    have guarded := publishBatch_guarded (.alone publisher table now plan fails) broker p
    refine .inr ⟨_, rfl, ?_, made ▸ guarded⟩
    obtain ⟨failed, same⟩ | ⟨fine_, writes, n, settling, after⟩ :=
      alone_settles publisher table now plan fails broker p made
    · exact .inl ⟨failed, same⟩
    · exact .inr ⟨now, _, writes, n, fine_, settling, compatClaim_distinct table now _ plan,
        claimed table now _ plan, after⟩
  | @unheard P publisher table now plan fails broker p batch ended error made fine_ =>
    have guarded := publishBatch_guarded (.alone publisher table now plan fails) broker p
    refine .inr ⟨_, rfl, ?_, made ▸ guarded⟩
    obtain ⟨failed, _⟩ | ⟨_, writes, n, settling, after⟩ :=
      alone_settles publisher table now plan fails broker p made
    · cases fine_.symm.trans failed
    · exact .inr ⟨now, _, writes, n, rfl, settling, compatClaim_distinct table now _ plan,
        claimed table now _ plan, after⟩
  | @crashed P publisher table now plan fails broker p batch log ended made cut =>
    have guarded := publishBatch_guarded (.alone publisher table now plan fails) broker p
    exact .inr ⟨_, rfl, .inl ⟨rfl, rfl⟩, fun handed member =>
      guarded handed (made ▸ cut.subset member)⟩

/-- A batch acknowledges the rows it marks published. -/
theorem settling_acknowledges (settling : Settling now rows writes log n)
    (unpublished : ∀ row ∈ rows, row.publishedAt = none) (id : Uuid) :
    log.countP (Handed.acknowledges id) = writes.countP (CompatRow.publishes id) := by
  induction settling with
  | done => rfl
  | @invalid row error rest writes log n _ _ ih =>
    have here := unpublished row List.mem_cons_self
    have later := ih (fun r member => unpublished r (List.mem_cons_of_mem _ member))
    simp [List.countP_append, later, CompatRow.publishes, CompatRow.reschedule, here]
  | @published row rest writes log n _ _ ih =>
    have later := ih (fun r member => unpublished r (List.mem_cons_of_mem _ member))
    simp [List.countP_append, List.countP_cons, later, CompatRow.publishes, CompatRow.markPublished,
      CompatRow.handed, Handed.acknowledges, Except.isOk, Except.toBool]
  | @refused row error rest _ =>
    have here := unpublished row List.mem_cons_self
    simp [CompatRow.publishes, CompatRow.reschedule, CompatRow.handed, Handed.acknowledges, here,
      Except.isOk, Except.toBool]

/-- The written versions are versions of rows the batch settled, one for each. -/
theorem settling_writes (settling : Settling now rows writes log n)
    (distinct : (rows.map (·.messageId)).Nodup) : (writes.map (·.messageId)).Nodup ∧
      ∀ w ∈ writes, ∃ row ∈ rows, row.Same w := by
  obtain ⟨front, stop, rest, split⟩ := settling_split settling
  rw [split.whole, List.map_append] at distinct
  constructor
  · rw [split.written]
    exact List.nodup_reverse.mpr (List.nodup_append'.mp distinct).1
  · intro w wrote
    obtain ⟨row, member, _, ⟨rfl, _⟩ | ⟨text, rfl⟩⟩ := split.origin w wrote
    · exact ⟨row, split.whole ▸ List.mem_append_left _ member, rfl, rfl, rfl, rfl⟩
    · exact ⟨row, split.whole ▸ List.mem_append_left _ member, rfl, rfl, rfl, rfl⟩

omit [External] in
/-- Versions of unpublished rows add to the published ones what they publish. -/
theorem install_publishes (distinct : (writes.map (·.messageId)).Nodup)
    (versions : ∀ w ∈ writes, ∃ row ∈ table.rows, row.Same w ∧
      row.publishedAt = none) (id : Uuid) :
    (table.install writes).rows.countP (CompatRow.publishes id) =
      table.rows.countP (CompatRow.publishes id) + writes.countP (CompatRow.publishes id) := by
  change (table.rows.map (written writes)).countP _ = _
  rw [List.countP_map]
  by_cases wrote : ∃ w ∈ writes, w.messageId = id
  · obtain ⟨w, listed, rfl⟩ := wrote
    obtain ⟨row, inside, same, unpublished⟩ := versions w listed
    have before : table.rows.countP (CompatRow.publishes w.messageId) = 0 := by
      apply List.countP_eq_zero.mpr
      intro other member matched
      simp only [CompatRow.publishes, Bool.and_eq_true, beq_iff_eq] at matched
      obtain rfl := table.same_id member inside (matched.1.trans same.id)
      simp [unpublished] at matched
    have version : written writes row = w := written_of_mem distinct listed same.id
    cases published : w.publishedAt.isSome with
    | true =>
      have one := affected_eq_one CompatRow.messageId distinct listed
        (by simp [CompatRow.publishes, published] : CompatRow.publishes w.messageId w = true)
        (fun r _ matched => by simp_all [CompatRow.publishes])
      have other := affected_eq_one CompatRow.messageId table.unique inside
        (by simp [CompatRow.publishes, version, published] :
          (CompatRow.publishes w.messageId ∘ written writes) row = true)
        (fun r _ matched => by simp_all [CompatRow.publishes, written_id, same.id])
      unfold affected at one other
      omega
    | false =>
      have none_ : writes.countP (CompatRow.publishes w.messageId) = 0 := by
        apply List.countP_eq_zero.mpr
        intro other member matched
        simp only [CompatRow.publishes, Bool.and_eq_true, beq_iff_eq] at matched
        obtain rfl := List.inj_on_of_nodup_map distinct member listed matched.1
        simp [published] at matched
      have after : table.rows.countP (CompatRow.publishes w.messageId ∘ written writes) = 0 := by
        apply List.countP_eq_zero.mpr
        intro other member matched
        simp only [Function.comp_apply, CompatRow.publishes, written_id, Bool.and_eq_true,
          beq_iff_eq] at matched
        obtain rfl := table.same_id member inside (matched.1.trans same.id)
        simp [version, published] at matched
      omega
  · simp only [not_exists, not_and] at wrote
    have none_ : writes.countP (CompatRow.publishes id) = 0 := by
      apply List.countP_eq_zero.mpr
      intro w member matched
      simp only [CompatRow.publishes, Bool.and_eq_true, beq_iff_eq] at matched
      exact wrote w member matched.1
    rw [none_, Nat.add_zero]
    apply List.countP_congr
    intro row _
    by_cases mine : row.messageId = id
    · rw [Function.comp_apply, written_of_absent (fun w member => mine ▸ wrote w member)]
    · simp [CompatRow.publishes, written_id, mine]

omit [External] in
theorem acknowledgements_snoc (ended : List CompatEnded) (e : CompatEnded) (id : Uuid) :
    acknowledgements (ended ++ [e]) id = acknowledgements ended id +
      if e.committed then e.log.countP (Handed.acknowledges id) else 0 := by
  cases committed : e.committed <;> simp [acknowledgements, committed, List.countP_append]

omit [External] in
theorem CompatRow.Same.claimed {row' : CompatRow} (same : row.Same row') :
    row'.claimed = row.claimed := by
  simp [CompatRow.claimed, same.id, same.subject, same.envelope]

/-- Every row is still there after a turn, but for what the updates set. -/
theorem turn_keeps (turn : CompatTurn h h') (inside : row ∈ h.table.rows) :
    ∃ row' ∈ h'.table.rows, row.Same row' := by
  rcases turn_cases turn with ⟨_, fresh, _, rows⟩ | ⟨e, _, ⟨_, after⟩ | batch, _⟩
  · exact ⟨row, rows ▸ List.mem_append_left _ inside, rfl, rfl, rfl, rfl⟩
  · exact ⟨row, after ▸ inside, rfl, rfl, rfl, rfl⟩
  · obtain ⟨now, rows, writes, n, _, settling, distinct, listed, after⟩ := batch
    obtain ⟨apart, versions⟩ := settling_writes settling distinct
    refine ⟨written writes row, after ▸ mem_install.mpr ⟨row, inside, rfl⟩, ?_⟩
    by_cases wrote : ∃ w ∈ writes, w.messageId = row.messageId
    · obtain ⟨w, member, id⟩ := wrote
      obtain ⟨old, settled, same⟩ := versions w member
      obtain rfl := h.table.same_id (listed old settled).1 inside (same.id.symm.trans id)
      rw [written_of_mem apart member id]
      exact same
    · simp only [not_exists, not_and] at wrote
      rw [written_of_absent wrote]
      exact ⟨rfl, rfl, rfl, rfl⟩

/- The acknowledgements of committed batches against the published rows. -/
structure CompatHistory.Accounted (h : CompatHistory) : Prop where
  acknowledged : ∀ id, acknowledgements h.ended id = h.table.rows.countP (CompatRow.publishes id)
  final : ∀ before e after, h.ended = before ++ e :: after → e.committed = true →
    ∀ handed ∈ e.log, handed.answer.isOk = true →
      ∀ later ∈ after, ∀ again ∈ later.log, again.messageId ≠ handed.messageId
  genuine : ∀ e ∈ h.ended, ∀ handed ∈ e.log, ∃ row ∈ h.table.rows,
    row.check = .ok () ∧
    ∃ answer, handed = row.handed answer

theorem compat_accounted_initial : CompatHistory.Accounted ⟨⟨[], List.nodup_nil⟩, []⟩ := by
  constructor <;> simp [acknowledgements]

/-- A row that a committed batch got acknowledged is not unpublished. -/
theorem CompatHistory.Accounted.published (accounted : h.Accounted) (member : e ∈ h.ended)
    (committed : e.committed = true) {handed : Handed} (sent : handed ∈ e.log)
    (acked : handed.answer.isOk = true) (inside : row ∈ h.table.rows)
    (unpublished : row.publishedAt = none) : row.messageId ≠ handed.messageId := by
  intro same
  have some_ : 0 < acknowledgements h.ended handed.messageId := by
    apply List.countP_pos_iff.mpr
    refine ⟨handed, List.mem_flatMap.mpr
      ⟨e, List.mem_filter.mpr ⟨member, committed⟩, sent⟩, ?_⟩
    simp [Handed.acknowledges, acked]
  have none_ : h.table.rows.countP (CompatRow.publishes handed.messageId) = 0 := by
    apply List.countP_eq_zero.mpr
    intro other listed matched
    simp only [CompatRow.publishes, Bool.and_eq_true, beq_iff_eq] at matched
    obtain rfl := h.table.same_id listed inside (matched.1.trans same.symm)
    simp [unpublished] at matched
  rw [accounted.acknowledged] at some_
  omega

theorem accounted_turn (accounted : h.Accounted) (turn : CompatTurn h h') : h'.Accounted where
  acknowledged := by
    intro id
    rcases turn_cases turn with ⟨same, row, unpublished, rows⟩ |
      ⟨e, grown, ⟨open_, after⟩ | batch, _⟩
    · rw [same, rows, List.countP_append, accounted.acknowledged]
      simp [CompatRow.publishes, unpublished]
    · rw [grown, after, acknowledgements_snoc, accounted.acknowledged]
      simp [open_]
    · obtain ⟨now, rows, writes, n, committed, settling, distinct, listed, after⟩ := batch
      obtain ⟨apart, versions⟩ := settling_writes settling distinct
      have acked := settling_acknowledges settling (fun row member => (listed row member).2) id
      have installed := install_publishes apart (fun w member => by
        obtain ⟨row, settled, same⟩ := versions w member
        exact ⟨row, (listed row settled).1, same, (listed row settled).2⟩) id
      rw [grown, after, acknowledgements_snoc, installed, accounted.acknowledged, if_pos committed,
        acked]
  final := by
    rcases turn_cases turn with ⟨same, _⟩ | ⟨e', grown, _, guarded⟩
    · rw [same]
      exact accounted.final
    · intro before e after split committed handed sent acked later ended again member
      rw [grown] at split
      obtain ⟨rest, former⟩ | ⟨mid, _, fresh⟩ := trace_split split
      · have tail : after = rest ++ [e'] := by simpa [former] using split.symm
        rcases List.mem_append.mp (tail ▸ ended) with old | new
        · exact accounted.final before e rest former committed handed sent acked later
            old again member
        · obtain rfl := List.mem_singleton.mp new
          obtain ⟨row, inside, unpublished, _, answer, rfl⟩ := guarded again member
          exact accounted.published (by simp [former]) committed sent acked inside unpublished
      · cases mid with
        | nil => simp_all
        | cons _ _ => simp at fresh
  genuine := by
    have kept : ∀ handed : Handed, (∃ row ∈ h.table.rows, row.check = .ok () ∧
        ∃ answer, handed = row.handed answer) →
        ∃ row ∈ h'.table.rows, row.check = .ok () ∧
          ∃ answer, handed = row.handed answer := by
      rintro handed ⟨row, inside, valid, answer, rfl⟩
      obtain ⟨row', inside', same⟩ := turn_keeps turn inside
      refine ⟨row', inside', ?_, answer, ?_⟩
      · simpa [CompatRow.check, same.subject, same.envelope] using valid
      · simp [CompatRow.handed, same.claimed, same.id]
    intro e member handed sent
    rcases turn_cases turn with ⟨same, _⟩ | ⟨e', grown, _, guarded⟩
    · exact kept handed (accounted.genuine e (same ▸ member) handed sent)
    · rcases List.mem_append.mp (grown ▸ member) with old | new
      · exact kept handed (accounted.genuine e old handed sent)
      · obtain rfl := List.mem_singleton.mp new
        obtain ⟨row, inside, _, valid, answer, named⟩ := guarded handed sent
        exact kept handed ⟨row, inside, valid, answer, named⟩

theorem accounted_of_turns
    (path : Relation.ReflTransGen CompatTurn ⟨⟨[], List.nodup_nil⟩, []⟩ h) :
    h.Accounted := by
  induction path with
  | refl => exact compat_accounted_initial
  | tail _ turn ih => exact accounted_turn ih turn

/-- However batches overlap, fail or crash: among the batches that committed, a published row
has one acknowledgement and any other row none; a batch that ends after that one does not
hand the row over again; and all that was handed over are the messages of valid rows. -/
theorem compat_published_once {now : Timestamp}
    (reached : Reaches CompatSystem.step (fun _ _ => True) (.initial now) s) :
    (∀ row ∈ s.table.rows,
      acknowledgements s.ended row.messageId = if row.publishedAt.isSome then 1 else 0) ∧
    (∀ before e after, s.ended = before ++ e :: after → e.committed = true →
      ∀ handed ∈ e.log, handed.answer.isOk = true →
        ∀ later ∈ after, ∀ again ∈ later.log, again.messageId ≠ handed.messageId) ∧
    ∀ e ∈ s.ended, ∀ handed ∈ e.log, ∃ row ∈ s.table.rows, row.check = .ok () ∧
      ∃ answer, handed = row.handed answer := by
  have accounted : s.history.Accounted := accounted_of_turns (turns_of_reaches reached)
  refine ⟨?_, accounted.final, accounted.genuine⟩
  intro row inside
  rw [show s.ended = s.history.ended from rfl, accounted.acknowledged]
  cases published : row.publishedAt.isSome with
  | true =>
    exact affected_eq_one CompatRow.messageId s.table.unique inside
      (by simp [CompatRow.publishes, published])
      (fun r _ matched => by simp_all [CompatRow.publishes])
  | false =>
    apply List.countP_eq_zero.mpr
    intro other member matched
    simp only [CompatRow.publishes, Bool.and_eq_true, beq_iff_eq] at matched
    obtain rfl := s.table.same_id member inside matched.1
    simp [published] at matched

end Once

section Sample

attribute [local instance] hexReader

/- The commit of the first batch fails after the publish, so the row is published twice. -/
def repeatedRun : List CompatAction :=
  [.enqueue "orders.created" 1 9 (.ok [1]), .begin_ 7 ⟨1⟩ none,
    .claim 7 ⟨fun _ => false, fun _ => 0⟩ none, .publish 7 (.ok ()), .update 7 none,
    .commit 7 (.failed "closed"), .begin_ 8 ⟨1⟩ none,
    .claim 8 ⟨fun _ => false, fun _ => 0⟩ none, .publish 8 (.ok ()), .update 8 none,
    .commit 8 .ok]

theorem compat_published_once_again : ∃ s : CompatSystem,
    run CompatSystem.step (.initial 0) repeatedRun = some s ∧
    s.ended.map (fun e => (e.committed, e.log.length)) = [(false, 1), (true, 1)] ∧
    ∀ row ∈ s.table.rows,
      acknowledgements s.ended row.messageId = if row.publishedAt.isSome then 1 else 0 := by
  refine ⟨_, rfl, by decide +kernel, ?_⟩
  have taken : run CompatSystem.step (.initial 0) repeatedRun = some _ := rfl
  exact (compat_published_once (reaches_of_run (fun _ _ => True) _ taken (fun _ _ _ => trivial))).1

end Sample

end FiduciaMessaging
