import FiduciaMessaging.Compat.Publisher

/-! What a compat batch leaves behind. A call that fails leaves nothing in the table; a call
that succeeds accounts for every row it claimed. -/
namespace FiduciaMessaging

open RowSet

variable {P : Type} {publisher : CompatOutboxPublisher} {table : CompatTable}
  {row row' w : CompatRow} {rows writes : List CompatRow} {now : Timestamp} {limit : Int}
  {plan : Plan} {log : List Handed} {n : Nat}

theorem due_iff : row.due now = true ↔ row.publishedAt = none ∧ row.availableAt ≤ now := by
  simp [CompatRow.due]

theorem mem_compatClaim (picked : row ∈ compatClaim table now limit plan) :
    row ∈ table.rows ∧ row.due now = true ∧ plan.locked row.messageId = false := by
  have sorted := List.mem_of_mem_take picked
  have filtered := List.mem_filter.mp ((List.mem_insertionSort (CompatRow.precedes plan)).mp sorted)
  simp only [Bool.and_eq_true, Bool.not_eq_true'] at filtered
  exact filtered

theorem compatClaim_distinct (table : CompatTable) (now : Timestamp) (limit : Int) (plan : Plan) :
    ((compatClaim table now limit plan).map (·.messageId)).Nodup := by
  have filtered : ((table.rows.filter (fun row => row.due now && !plan.locked row.messageId)).map
      (·.messageId)).Nodup := table.unique.sublist (List.filter_sublist.map _)
  have sorted :=
    ((List.perm_insertionSort (CompatRow.precedes plan) _).map (·.messageId)).nodup_iff.mpr
    filtered
  exact sorted.sublist ((List.take_sublist _ _).map _)

theorem CompatTable.same_id (inside : row ∈ table.rows) (inside' : row' ∈ table.rows)
    (same : row.messageId = row'.messageId) : row = row' :=
  List.inj_on_of_nodup_map table.unique inside inside' same

/-- A backoff is a second at least. -/
theorem second_le_backoff (row : CompatRow) : second ≤ compatBackoff row.attempts := by
  unfold compatBackoff second
  apply le_min
  · decide
  · have power : (1 : Int) ≤ 2 ^ (min row.attempts 8).toNat := Int.pow_pos (by decide)
    omega

/- Versions of rows. -/

theorem written_of_mem (distinct : (writes.map (·.messageId)).Nodup) (inside : w ∈ writes)
    (same : w.messageId = row.messageId) : written writes row = w := by
  unfold written
  rw [find_key CompatRow.messageId distinct inside same]
  rfl

theorem written_of_absent (absent : ∀ w ∈ writes, w.messageId ≠ row.messageId) :
    written writes row = row := by
  unfold written
  rw [find_key_none CompatRow.messageId absent]
  rfl

/-- The transaction sees the committed version of a row it has not written. -/
theorem current_unwritten {call : CompatCall P} (inside : row ∈ table.rows)
    (absent : ∀ w ∈ call.writes, w.messageId ≠ row.messageId) :
    call.current table row.messageId = some row := by
  unfold CompatCall.current
  rw [List.find?_append, find_key_none CompatRow.messageId absent, Option.none_or]
  exact find_key CompatRow.messageId table.unique inside rfl

theorem execute_log {env : Surroundings publisher table} {call call' : CompatCall P} {id : Uuid}
    {f : CompatRow → CompatRow} (done : env.execute call id f = .ok call') :
    call'.log = call.log := by
  unfold Surroundings.execute at done
  split at done
  · contradiction
  · split at done
    · exact Except.ok.inj done ▸ rfl
    · split at done
      · contradiction
      · exact Except.ok.inj done ▸ rfl

theorem execute_broker {env : Surroundings publisher table} {call call' : CompatCall P} {id : Uuid}
    {f : CompatRow → CompatRow} (done : env.execute call id f = .ok call') :
    call'.broker = call.broker := by
  unfold Surroundings.execute at done
  split at done
  · contradiction
  · split at done
    · exact Except.ok.inj done ▸ rfl
    · split at done
      · contradiction
      · exact Except.ok.inj done ▸ rfl

theorem execute_writes {env : Surroundings publisher table} {call call' : CompatCall P}
    {f : CompatRow → CompatRow} (inside : row ∈ table.rows)
    (done : env.execute call row.messageId f = .ok call')
    (absent : ∀ w ∈ call.writes, w.messageId ≠ row.messageId) :
    call'.writes = f row :: call.writes := by
  unfold Surroundings.execute at done
  rw [current_unwritten inside absent] at done
  split at done
  · contradiction
  · simp only at done
    split at done
    · contradiction
    · exact Except.ok.inj done ▸ rfl

/- What the broker makes of some messages, one after the other: its state, and its answers. -/
def CompatBroker.replay (broker : CompatBroker P) :
    P → List CompatMessage → P × List (Except String Unit)
  | p, [] => (p, [])
  | p, message :: rest =>
    let later := broker.replay (broker p message).1 rest
    (later.1, (broker p message).2 :: later.2)

theorem CompatBroker.replay_concat (broker : CompatBroker P) (p : P) (messages : List CompatMessage)
    (message : CompatMessage) : broker.replay p (messages ++ [message]) =
      ((broker (broker.replay p messages).1 message).1,
        (broker.replay p messages).2 ++ [(broker (broker.replay p messages).1 message).2]) := by
  induction messages generalizing p with
  | nil => rfl
  | cons first rest ih =>
    simp only [List.cons_append, CompatBroker.replay, ih]

/- The log of a call is the broker's own answers to the messages handed over. -/
def CompatCall.Replays (call : CompatCall P) (broker : CompatBroker P) (p : P) : Prop :=
  broker.replay p (call.log.map (·.message)) = (call.broker, call.log.map (·.answer))

theorem CompatCall.Replays.publish {call : CompatCall P} {broker : CompatBroker P} {p : P}
    (replays : call.Replays broker p) (row : CompatClaimedRow) :
    (call.publish broker row).Replays broker p := by
  have before : broker.replay p (call.log.map (·.message)) =
      (call.broker, call.log.map (·.answer)) := replays
  unfold CompatCall.Replays CompatCall.publish
  rw [List.map_append, List.map_append, List.map_singleton, List.map_singleton,
    CompatBroker.replay_concat, before]

theorem CompatCall.Replays.execute {env : Surroundings publisher table} {call call' : CompatCall P}
    {broker : CompatBroker P} {p : P} {id : Uuid} {f : CompatRow → CompatRow}
    (replays : call.Replays broker p) (done : env.execute call id f = .ok call') :
    call'.Replays broker p := by
  unfold CompatCall.Replays
  rw [execute_log done, execute_broker done]
  exact replays

section Settling

variable [External]

/-- The loop logs the broker's own answers, wherever it ends. -/
theorem publishRows_replays {env : Surroundings publisher table} {broker : CompatBroker P} {p : P}
    (claimed : List CompatClaimedRow) {published : Nat} {call : CompatCall P}
    (replays : call.Replays broker p) :
    (env.publishRows broker claimed published call).2.Replays broker p := by
  induction claimed generalizing published call with
  | nil => exact replays
  | cons row rest ih =>
    unfold Surroundings.publishRows
    split
    · split
      · exact replays
      · rename_i done
        exact ih (replays.execute done)
    · split
      · split
        · exact replays.publish row
        · rename_i done
          exact ih ((replays.publish row).execute done)
      · split
        · exact replays.publish row
        · rename_i done
          exact (replays.publish row).execute done

def CompatRow.check (row : CompatRow) : Except CompatOutboxError Unit :=
  validateCompatPublish row.subject row.envelope.length

theorem check_isOk : row.check.isOk = true ↔ row.check = .ok () := by
  cases row.check with
  | error e => simp [Except.isOk, Except.toBool]
  | ok u => simp [Except.isOk, Except.toBool]

theorem filter_valid (valid : row.check = .ok ()) :
    [row].filter (fun row => row.check.isOk) = [row] := by
  simp [check_isOk.mpr valid]

def CompatRow.handed (row : CompatRow) (answer : Except String Unit) : Handed :=
  ⟨row.messageId, row.claimed.message, answer⟩

/- The loop over claimed rows as long as no database call fails: the versions written, newest
first, the messages handed over and the rows published. -/
inductive Settling (now : Timestamp) :
    List CompatRow → List CompatRow → List Handed → Nat → Prop where
  | done : Settling now [] [] [] 0
  | invalid {row : CompatRow} {error : CompatOutboxError} {rest writes log n} :
      row.check = .error error → Settling now rest writes log n →
      Settling now (row :: rest) (writes ++ [row.reschedule now error.toString]) log n
  | published {row : CompatRow} {rest writes log n} :
      row.check = .ok () → Settling now rest writes log n →
      Settling now (row :: rest) (writes ++ [row.markPublished now])
        (row.handed (.ok ()) :: log) (n + 1)
  | refused {row : CompatRow} (error : String) (rest : List CompatRow) :
      row.check = .ok () →
      Settling now (row :: rest) [row.reschedule now error] [row.handed (.error error)] 0

/-- The loop settles its rows, from the first to the one it stops at. -/
theorem publishRows_settles {env : Surroundings publisher table} {broker : CompatBroker P}
    {published : Nat} {call call' : CompatCall P} (inside : ∀ row ∈ rows, row ∈ table.rows)
    (distinct : (rows.map (·.messageId)).Nodup)
    (fresh : ∀ row ∈ rows, ∀ w ∈ call.writes, w.messageId ≠ row.messageId)
    (ended : env.publishRows broker (rows.map CompatRow.claimed) published call = (.ok n, call')) :
    ∃ writes log k, n = published + k ∧ call'.writes = writes ++ call.writes ∧
      call'.log = call.log ++ log ∧ Settling env.now rows writes log k := by
  induction rows generalizing published call with
  | nil =>
    obtain ⟨count, rfl⟩ := Prod.mk.inj ended
    exact ⟨[], [], 0, (Except.ok.inj count).symm, rfl, (List.append_nil _).symm, .done⟩
  | cons row rest ih =>
    have here := inside row List.mem_cons_self
    have unwritten := fresh row List.mem_cons_self
    have apart := List.nodup_cons.mp distinct
    -- an update of this row leaves the later ones unwritten
    have later {next : CompatCall P} {f : CompatRow → CompatRow}
        (same : (f row).messageId = row.messageId) (wrote : next.writes = f row :: call.writes) :
        ∀ r ∈ rest, ∀ w ∈ next.writes, w.messageId ≠ r.messageId := by
      intro r listed w member
      rw [wrote] at member
      rcases List.mem_cons.mp member with rfl | old
      · intro equal
        exact apart.1 (List.mem_map.mpr ⟨r, listed, equal.symm.trans same⟩)
      · exact fresh r (List.mem_cons_of_mem _ listed) w old
    have inside' : ∀ r ∈ rest, r ∈ table.rows :=
      fun r listed => inside r (List.mem_cons_of_mem _ listed)
    simp only [List.map_cons, Surroundings.publishRows] at ended
    split at ended
    · rename_i error refused
      split at ended
      · cases (Prod.mk.inj ended).1
      · rename_i next done
        have wrote := execute_writes here done unwritten
        obtain ⟨writes, log, k, count, writes', log', settling⟩ :=
          ih inside' apart.2 (later (f := fun r => r.reschedule env.now error.toString) rfl wrote)
            ended
        refine ⟨_, log, k, count, ?_, ?_, .invalid refused settling⟩
        · rw [writes', wrote, List.append_assoc]
          rfl
        · rw [log', execute_log done]
    · rename_i valid
      split at ended
      · rename_i answered
        split at ended
        · cases (Prod.mk.inj ended).1
        · rename_i next done
          have wrote := execute_writes here done unwritten
          obtain ⟨writes, log, k, count, writes', log', settling⟩ :=
            ih inside' apart.2 (later (f := fun r => r.markPublished env.now) rfl wrote) ended
          refine ⟨_, _, k + 1, ?_, ?_, ?_, .published valid settling⟩
          · rw [count]
            omega
          · rw [writes', wrote, List.append_assoc]
            rfl
          · rw [log', execute_log done]
            simp only [CompatCall.publish, answered, List.append_assoc]
            rfl
      · rename_i error answered
        split at ended
        · cases (Prod.mk.inj ended).1
        · rename_i next done
          have wrote := execute_writes here done unwritten
          obtain ⟨count, rfl⟩ := Prod.mk.inj ended
          refine ⟨_, _, 0, (Except.ok.inj count).symm, wrote, ?_, .refused error rest valid⟩
          rw [execute_log done]
          simp only [CompatCall.publish, answered]
          rfl

/- The claimed rows of a batch: those it finished, the one it stopped at if there is one, and
those it never came to. -/
structure Split (now : Timestamp) (rows front stop rest writes : List CompatRow)
    (log : List Handed) (n : Nat) : Prop where
  whole : rows = front ++ stop ++ rest
  single : stop.length ≤ 1
  ends : stop = [] → rest = []
  written : writes.map (·.messageId) = ((front ++ stop).map (·.messageId)).reverse
  origin : ∀ w ∈ writes, ∃ row ∈ front ++ stop, w.messageId = row.messageId ∧
    ((w = row.markPublished now ∧ row ∈ front ∧ row.check = .ok ()) ∨
      ∃ text, w = row.reschedule now text)
  invalid : ∀ row ∈ front, ∀ error, row.check = .error error →
    row.reschedule now error.toString ∈ writes
  published : ∀ row ∈ front, row.check = .ok () →
    row.markPublished now ∈ writes ∧ row.handed (.ok ()) ∈ log
  refused : ∀ row ∈ stop, row.check = .ok () ∧
    ∃ error, row.reschedule now error ∈ writes ∧ row.handed (.error error) ∈ log
  logged : ∀ handed ∈ log, ∃ row ∈ front ++ stop, ∃ answer, handed = row.handed answer ∧
    row.check = .ok () ∧ ∀ error, answer = .error error → row ∈ stop
  counted : n = front.countP (fun row => row.check.isOk)
  handed : log.map (·.message) =
    ((front ++ stop).filter (fun row => row.check.isOk)).map (fun row => row.claimed.message)

/-- A row in front of the split, put off or published. -/
theorem Split.grow {front stop rest : List CompatRow} {m : Nat}
    (split : Split now rows front stop rest writes log n) (w : CompatRow) (fresh : List Handed)
    (same : w.messageId = row.messageId)
    (wrote : (∃ error, row.check = .error error ∧ w = row.reschedule now error.toString) ∨
      (row.check = .ok () ∧ w = row.markPublished now ∧ row.handed (.ok ()) ∈ fresh))
    (named : ∀ handed ∈ fresh, handed = row.handed (.ok ()) ∧ row.check = .ok ())
    (count : m = n + row.check.isOk.toNat)
    (sent : fresh.map (·.message) =
      ([row].filter (fun row => row.check.isOk)).map (fun row => row.claimed.message)) :
    Split now (row :: rows) (row :: front) stop rest (writes ++ [w]) (fresh ++ log) m := by
  constructor
  · rw [split.whole]
    rfl
  · exact split.single
  · exact split.ends
  · simp [split.written, same]
  · intro v member
    rcases List.mem_append.mp member with old | new
    · obtain ⟨r, inside, same', kind⟩ := split.origin v old
      refine ⟨r, List.mem_cons_of_mem _ inside, same', ?_⟩
      exact kind.imp_left (fun marked =>
        ⟨marked.1, List.mem_cons_of_mem _ marked.2.1, marked.2.2⟩)
    · rw [List.mem_singleton.mp new]
      refine ⟨row, List.mem_cons_self, same, ?_⟩
      rcases wrote with ⟨error, _, put⟩ | ⟨valid, marked, _⟩
      · exact .inr ⟨_, put⟩
      · exact .inl ⟨marked, List.mem_cons_self, valid⟩
  · intro r member e failed
    rcases List.mem_cons.mp member with rfl | later
    · rcases wrote with ⟨error, refused, put⟩ | ⟨valid, _⟩
      · obtain rfl := Except.error.inj (refused.symm.trans failed)
        exact put ▸ List.mem_append_right _ List.mem_cons_self
      · cases valid.symm.trans failed
    · exact List.mem_append_left _ (split.invalid r later e failed)
  · intro r member check
    rcases List.mem_cons.mp member with rfl | later
    · rcases wrote with ⟨error, refused, _⟩ | ⟨_, marked, acked⟩
      · cases refused.symm.trans check
      · exact ⟨marked ▸ List.mem_append_right _ List.mem_cons_self,
          List.mem_append_left _ acked⟩
    · obtain ⟨marked, acked⟩ := split.published r later check
      exact ⟨List.mem_append_left _ marked, List.mem_append_right _ acked⟩
  · intro r member
    obtain ⟨check, e, put, named'⟩ := split.refused r member
    exact ⟨check, e, List.mem_append_left _ put, List.mem_append_right _ named'⟩
  · intro handed member
    rcases List.mem_append.mp member with new | later
    · obtain ⟨rfl, valid⟩ := named handed new
      exact ⟨row, List.mem_cons_self, _, rfl, valid, nofun⟩
    · obtain ⟨r, inside, facts⟩ := split.logged handed later
      exact ⟨r, List.mem_cons_of_mem _ inside, facts⟩
  · rw [count, split.counted, List.countP_cons]
    cases row.check.isOk <;> rfl
  · rw [List.map_append, sent, split.handed, ← List.map_append, ← List.filter_append]
    rfl

theorem settling_split (settling : Settling now rows writes log n) :
    ∃ front stop rest, Split now rows front stop rest writes log n := by
  induction settling with
  | done =>
    refine ⟨[], [], [], ?_⟩
    constructor <;> simp
  | @invalid row error tail writes log n refused _ ih =>
    obtain ⟨front, stop, rest, split⟩ := ih
    refine ⟨row :: front, stop, rest,
      split.grow (row.reschedule now error.toString) [] rfl
        (.inl ⟨error, refused, rfl⟩) ?_ ?_ ?_⟩
    · intro handed impossible
      cases impossible
    · rw [refused]
      rfl
    · rw [List.filter_cons_of_neg (by simp [refused, Except.isOk, Except.toBool])]
      rfl
  | @published row tail writes log n valid _ ih =>
    obtain ⟨front, stop, rest, split⟩ := ih
    refine ⟨row :: front, stop, rest, split.grow (row.markPublished now) [row.handed (.ok ())] rfl
      (.inr ⟨valid, rfl, List.mem_cons_self⟩) ?_ ?_ ?_⟩
    · intro handed member
      exact ⟨List.mem_singleton.mp member, valid⟩
    · rw [valid]
      rfl
    · rw [filter_valid valid]
      rfl
  | @refused row error rest valid =>
    refine ⟨[], [row], rest, ?_⟩
    constructor
    · rfl
    · exact Nat.le_refl 1
    · intro impossible
      cases impossible
    · rfl
    · intro w member
      rw [List.mem_singleton.mp member]
      exact ⟨row, List.mem_cons_self, rfl, .inr ⟨error, rfl⟩⟩
    · intro r member
      cases member
    · intro r member
      cases member
    · intro r member
      rw [List.mem_singleton.mp member]
      exact ⟨valid, error, List.mem_cons_self, List.mem_cons_self⟩
    · intro handed member
      rw [List.mem_singleton.mp member]
      exact ⟨row, List.mem_cons_self, _, rfl, valid, fun _ _ => List.mem_cons_self⟩
    · rfl
    · rw [List.nil_append, filter_valid valid]
      rfl

end Settling

/- A row put off: one attempt more, the error on record, and due a second later at least. -/
structure PutOff (now : Timestamp) (error : String) (row row' : CompatRow) : Prop where
  same : row'.messageId = row.messageId ∧ row'.tenantId = row.tenantId ∧
    row'.subject = row.subject ∧ row'.envelope = row.envelope ∧
      row'.createdAt = row.createdAt ∧
    row'.publishedAt = row.publishedAt
  attempt : row'.attempts = row.attempts + 1
  recorded : row'.lastError = some error
  later : now + second ≤ row'.availableAt

theorem putOff_reschedule (now : Timestamp) (error : String) (row : CompatRow) :
    PutOff now error row (row.reschedule now error) where
  same := ⟨rfl, rfl, rfl, rfl, rfl, rfl⟩
  attempt := rfl
  recorded := rfl
  later := Int.add_le_add_left (second_le_backoff row) now

def CompatRow.turnsPublished (after : CompatTable) (row : CompatRow) : Bool :=
  row.publishedAt.isNone &&
    after.rows.any (fun row' => row'.messageId == row.messageId && row'.publishedAt.isSome)

/- What a batch that returns `n` did to the committed table, and what it told the broker. The
rows before the stopping point are `front`, a row whose publish failed is `stop`, and the
claimed rows after it are `rest`. -/
structure BatchSettles [External] (publisher : CompatOutboxPublisher) (table : CompatTable)
    (env : Surroundings publisher table) (broker : CompatBroker P) (p p' : P)
    (front stop rest : List CompatRow) (n : Nat) (after : CompatTable) (log : List Handed) :
    Prop where
  claimed : compatClaim table env.now publisher.batchSize env.plan = front ++ stop ++ rest
  due : ∀ row ∈ front ++ stop ++ rest, row ∈ env.committed.rows ∧ row.publishedAt = none ∧
    row.availableAt ≤ env.now ∧ env.plan.locked row.messageId = false
  stops : stop.length ≤ 1 ∧ (stop = [] → rest = [])
  published : env.committed.rows.countP (CompatRow.turnsPublished after) = n
  acknowledged : ∀ row ∈ env.committed.rows, row.turnsPublished after = true →
    row ∈ front ∧ row.markPublished env.now ∈ after.rows ∧ row.handed (.ok ()) ∈ log
  guarded : ∀ handed ∈ log, ∃ row ∈ front ++ stop, ∃ answer,
    handed = row.handed answer ∧
    row.check = .ok () ∧ ∀ error, answer = .error error → row ∈ stop
  handed : log.map (·.message) =
    ((front ++ stop).filter (fun row => row.check.isOk)).map (fun row => row.claimed.message)
  replayed : broker.replay p (log.map (·.message)) = (p', log.map (·.answer))
  invalid : ∀ row ∈ front, ∀ error, row.check = .error error →
    ∃ row' ∈ after.rows, PutOff env.now error.toString row row'
  refused : ∀ row ∈ stop, row.check = .ok () ∧
    ∃ error, row.handed (.error error) ∈ log ∧
    ∃ row' ∈ after.rows, PutOff env.now error row row'
  untouched : ∀ row ∈ rest, row ∈ after.rows
  elsewhere : ∀ row ∈ env.committed.rows, row ∉ front ++ stop → row ∈ after.rows
  keys : after.rows.map (·.messageId) = env.committed.rows.map (·.messageId)

section Settles

variable [External] {front stop rest : List CompatRow} {env : Surroundings publisher table}

/- The rows of the committed table after the writes of a split batch are installed. -/

omit [External] in
theorem mem_install {after : CompatTable} : row' ∈ (after.install writes).rows ↔
    ∃ row ∈ after.rows, written writes row = row' := List.mem_map

omit [External] in
theorem install_any (after : CompatTable) (writes : List CompatRow) (inside : row ∈ after.rows)
    (p : CompatRow → Bool) :
    (after.install writes).rows.any (fun row' => row'.messageId == row.messageId && p row') =
      p (written writes row) := by
  rw [Bool.eq_iff_iff, List.any_eq_true]
  constructor
  · rintro ⟨row', member, found⟩
    obtain ⟨here, holds⟩ := Bool.and_eq_true_iff.mp found
    obtain ⟨other, inside', rfl⟩ := mem_install.mp member
    have same : other.messageId = row.messageId :=
      (written_id writes other).symm.trans (eq_of_beq here)
    rwa [after.same_id inside' inside same] at holds
  · intro holds
    refine ⟨_, mem_install.mpr ⟨row, inside, rfl⟩, ?_⟩
    rw [holds, Bool.and_true, beq_iff_eq]
    exact written_id writes row

section Split

variable (split : Split env.now (compatClaim table env.now publisher.batchSize env.plan)
  front stop rest writes log n)
include split

theorem split_due : ∀ row ∈ front ++ stop ++ rest, row ∈ env.committed.rows ∧
    row.publishedAt = none ∧ row.availableAt ≤ env.now ∧
    env.plan.locked row.messageId = false := by
  intro row member
  rw [← split.whole] at member
  obtain ⟨_, due, free⟩ := mem_compatClaim member
  exact ⟨env.held row member, (due_iff.mp due).1, (due_iff.mp due).2, free⟩

theorem split_committed (member : row ∈ front ++ stop) :
    row ∈ env.committed.rows ∧ row.publishedAt = none := by
  obtain ⟨inside, unpublished, _⟩ := split_due split row (List.mem_append_left _ member)
  exact ⟨inside, unpublished⟩

theorem split_distinct : ((front ++ stop).map (·.messageId)).Nodup := by
  have claimed := compatClaim_distinct table env.now publisher.batchSize env.plan
  rw [split.whole] at claimed
  exact claimed.sublist ((List.sublist_append_left _ _).map _)

/-- Each written version is the one version of its row. -/
theorem split_written (wrote : w ∈ writes) (same : w.messageId = row.messageId) :
    written writes row = w := by
  have distinct : (writes.map (·.messageId)).Nodup := by
    rw [split.written]
    exact List.nodup_reverse.mpr (split_distinct split)
  exact written_of_mem distinct wrote same

theorem split_installed (member : row ∈ front ++ stop) (wrote : w ∈ writes)
    (same : w.messageId = row.messageId) : w ∈ (env.committed.install writes).rows :=
  mem_install.mpr ⟨row, (split_committed split member).1, split_written split wrote same⟩

theorem split_elsewhere (inside : row ∈ env.committed.rows) (outside : row ∉ front ++ stop) :
    row ∈ (env.committed.install writes).rows := by
  refine mem_install.mpr ⟨row, inside, written_of_absent ?_⟩
  intro w wrote same
  obtain ⟨r, member, here, _⟩ := split.origin w wrote
  have equal := env.committed.same_id (split_committed split member).1 inside (here.symm.trans same)
  exact outside (equal ▸ member)

/-- The rows that turn published are the valid ones before the stopping point. -/
theorem split_turns (inside : row ∈ env.committed.rows) :
    row.turnsPublished (env.committed.install writes) = true ↔
      row ∈ front ∧ row.check = .ok () := by
  have version := install_any env.committed writes inside (fun r => r.publishedAt.isSome)
  simp only [CompatRow.turnsPublished, version, Bool.and_eq_true, Option.isNone_iff_eq_none]
  constructor
  · rintro ⟨unpublished, published⟩
    by_cases exists_ : ∃ w ∈ writes, w.messageId = row.messageId
    · obtain ⟨w, wrote, same⟩ := exists_
      obtain ⟨r, member, here, marked⟩ := split.origin w wrote
      have equal := env.committed.same_id (split_committed split member).1 inside
        (here.symm.trans same)
      subst equal
      rcases marked with ⟨_, first, valid⟩ | ⟨text, rescheduled⟩
      · exact ⟨first, valid⟩
      · -- a version that is put off is as unpublished as the row
        rw [split_written split wrote same, rescheduled] at published
        change r.publishedAt.isSome = true at published
        rw [unpublished] at published
        cases published
    · have absent : ∀ w ∈ writes, w.messageId ≠ row.messageId :=
        fun w wrote same => exists_ ⟨w, wrote, same⟩
      rw [written_of_absent absent, unpublished] at published
      cases published
  · rintro ⟨first, valid⟩
    have member : row ∈ front ++ stop := List.mem_append_left _ first
    refine ⟨(split_committed split member).2, ?_⟩
    have marked : written writes row = row.markPublished env.now :=
      split_written split (split.published row first valid).1 rfl
    rw [marked]
    rfl

theorem split_count :
    env.committed.rows.countP (CompatRow.turnsPublished (env.committed.install writes)) = n := by
  have whole : env.committed.rows.Nodup := List.Nodup.of_map _ env.committed.unique
  have part : (front ++ stop).Nodup := List.Nodup.of_map _ (split_distinct split)
  have same : (env.committed.rows.filter
      (CompatRow.turnsPublished (env.committed.install writes))).Perm
      (front.filter (fun row => row.check.isOk)) := by
    apply (List.perm_ext_iff_of_nodup (whole.filter _)
      ((part.sublist (List.sublist_append_left _ _)).filter _)).mpr
    intro row
    rw [List.mem_filter, List.mem_filter, check_isOk]
    constructor
    · rintro ⟨inside, turned⟩
      exact (split_turns split inside).mp turned
    · rintro ⟨first, valid⟩
      have inside := (split_committed split (List.mem_append_left _ first)).1
      exact ⟨inside, (split_turns split inside).mpr ⟨first, valid⟩⟩
  rw [split.counted, List.countP_eq_length_filter, List.countP_eq_length_filter, same.length_eq]

theorem split_settles {broker : CompatBroker P} {p p' : P}
    (replayed : broker.replay p (log.map (·.message)) = (p', log.map (·.answer))) :
    BatchSettles publisher table env broker p p' front stop rest n (env.committed.install writes)
      log where
  claimed := split.whole
  due := split_due split
  stops := ⟨split.single, split.ends⟩
  published := split_count split
  acknowledged := by
    intro row inside turned
    obtain ⟨first, valid⟩ := (split_turns split inside).mp turned
    obtain ⟨marked, acked⟩ := split.published row first valid
    exact ⟨first, split_installed split (List.mem_append_left _ first) marked rfl, acked⟩
  guarded := split.logged
  handed := split.handed
  replayed := replayed
  invalid := by
    intro row first error failed
    have wrote := split.invalid row first error failed
    exact ⟨_, split_installed split (List.mem_append_left _ first) wrote rfl,
      putOff_reschedule _ _ _⟩
  refused := by
    intro row stopped
    obtain ⟨valid, error, wrote, named⟩ := split.refused row stopped
    exact ⟨valid, error, named, _,
      split_installed split (List.mem_append_right _ stopped) wrote rfl,
      putOff_reschedule _ _ _⟩
  untouched := by
    intro row later
    have inside := (split_due split row (List.mem_append_right _ later)).1
    apply split_elsewhere split inside
    intro member
    have claimed := compatClaim_distinct table env.now publisher.batchSize env.plan
    rw [split.whole] at claimed
    exact (List.nodup_append'.mp (List.Nodup.of_map _ claimed)).2.2 member later
  elsewhere := fun _ inside outside => split_elsewhere split inside outside
  keys := by
    have same : ∀ row ∈ env.committed.rows, ((·.messageId) ∘ written writes) row =
        row.messageId :=
      fun row _ => written_id writes row
    exact (List.map_map.trans (List.map_congr_left same))

end Split

/-- A call is rolled back, or its loop came to an end and its writes are committed. -/
theorem publishBatch_cases (publisher : CompatOutboxPublisher) (table : CompatTable)
    (env : Surroundings publisher table) (broker : CompatBroker P) (p : P) :
    (∃ call error, publisher.publishBatch table env broker p = env.rollback call error) ∨
      ∃ n call, env.publishRows broker
          ((compatClaim table env.now publisher.batchSize env.plan).map CompatRow.claimed) 0
          ⟨2, [], p, []⟩ = (.ok n, call) ∧
        publisher.publishBatch table env broker p =
          ⟨.ok n, env.committed.install call.writes, call.broker, call.log⟩ := by
  unfold CompatOutboxPublisher.publishBatch
  split
  · exact .inl ⟨_, _, rfl⟩
  · split
    · exact .inl ⟨_, _, rfl⟩
    · split
      · exact .inl ⟨_, _, rfl⟩
      · split
        · exact .inl ⟨_, _, rfl⟩
        · rename_i n call settled
          split
          · exact .inl ⟨_, _, rfl⟩
          · exact .inr ⟨n, call, settled, rfl⟩

/-- A call that fails leaves the committed table as it is. -/
theorem publishBatch_failed {env : Surroundings publisher table} {broker : CompatBroker P} {p : P}
    {error : CompatOutboxError}
    (failed : (publisher.publishBatch table env broker p).result = .error error) :
    (publisher.publishBatch table env broker p).table = env.committed := by
  rcases publishBatch_cases publisher table env broker p with
    ⟨call, e, ended⟩ | ⟨n, call, _, ended⟩
  · rw [ended]
    rfl
  · rw [ended] at failed
    cases failed

/-- Failed or not, a call logs the broker's own answers. -/
theorem publishBatch_replayed (env : Surroundings publisher table)
    (broker : CompatBroker P) (p : P) :
    broker.replay p ((publisher.publishBatch table env broker p).log.map (·.message)) =
      ((publisher.publishBatch table env broker p).broker,
        (publisher.publishBatch table env broker p).log.map (·.answer)) := by
  have settled : (env.publishRows broker
      ((compatClaim table env.now publisher.batchSize env.plan).map CompatRow.claimed) 0
      ⟨2, [], p, []⟩).2.Replays broker p := publishRows_replays _ rfl
  unfold CompatOutboxPublisher.publishBatch
  split
  · rfl
  · split
    · rfl
    · split
      · rfl
      · split
        · rename_i ended
          rw [ended] at settled
          exact settled
        · rename_i ended
          rw [ended] at settled
          split <;> exact settled

/-- A call that returns has settled the rows it claimed. -/
theorem publishBatch_returned {env : Surroundings publisher table} {broker : CompatBroker P} {p : P}
    (returned : (publisher.publishBatch table env broker p).result = .ok n) :
    ∃ front stop rest, BatchSettles publisher table env broker p
      (publisher.publishBatch table env broker p).broker front stop rest n
      (publisher.publishBatch table env broker p).table
      (publisher.publishBatch table env broker p).log := by
  have replayed := publishBatch_replayed env broker p
  rcases publishBatch_cases publisher table env broker p with
    ⟨call, error, ended⟩ | ⟨m, call, settled, ended⟩
  · rw [ended] at returned
    cases returned
  · rw [ended] at returned replayed ⊢
    obtain rfl := Except.ok.inj returned
    obtain ⟨writes, log, k, count, writes', log', settling⟩ := publishRows_settles
      (fun row picked => (mem_compatClaim picked).1) (compatClaim_distinct _ _ _ _)
      (by
        intro row _ w impossible
        cases impossible) settled
    obtain rfl := count.trans (Nat.zero_add k)
    obtain ⟨front, stop, rest, split⟩ := settling_split settling
    simp only [log', List.nil_append] at replayed
    rw [writes', log', List.append_nil]
    exact ⟨front, stop, rest, split_settles split replayed⟩

/-- A batch that fails leaves the committed table as it is. A batch that returns `n` published
the `n` valid rows before its stopping point, each acknowledged under its own id, and put off
the invalid ones and the one refused row. Either way its log is what the broker answered. -/
theorem publish_batch_settles (publisher : CompatOutboxPublisher) (table : CompatTable)
    (env : Surroundings publisher table) (broker : CompatBroker P) (p : P) :
    (∀ error, (publisher.publishBatch table env broker p).result = .error error →
      (publisher.publishBatch table env broker p).table = env.committed ∧
      broker.replay p ((publisher.publishBatch table env broker p).log.map (·.message)) =
        ((publisher.publishBatch table env broker p).broker,
          (publisher.publishBatch table env broker p).log.map (·.answer))) ∧
    ∀ n, (publisher.publishBatch table env broker p).result = .ok n → ∃ front stop rest,
      BatchSettles publisher table env broker p
        (publisher.publishBatch table env broker p).broker front stop rest n
        (publisher.publishBatch table env broker p).table
        (publisher.publishBatch table env broker p).log := by
  constructor
  · intro error failed
    exact ⟨publishBatch_failed failed, publishBatch_replayed env broker p⟩
  · intro n returned
    exact publishBatch_returned returned

end Settles

/- Nobody else commits while the call is open. -/
def Surroundings.alone (publisher : CompatOutboxPublisher) (table : CompatTable) (now : Timestamp)
    (plan : Plan) (fails : Nat → Option String) : Surroundings publisher table where
  now := now
  plan := plan
  fails := fails
  committed := table
  held := fun _ picked => (mem_compatClaim picked).1

section Sample

attribute [local instance] hexReader

/- A broker that acknowledges its first message only. -/
def wearyBroker : CompatBroker Nat := fun calls _ =>
  (calls + 1, if calls = 0 then .ok () else .error "timed out")

def mixedTable : CompatTable where
  rows := [compatEnqueued 1 9 "orders.>" [1] 0, compatEnqueued 2 9 "orders.created" [2] 0,
    compatEnqueued 3 9 "orders.paid" [3] 0, compatEnqueued 4 9 "orders.sent" [4] 0]
  unique := by decide

example : ((CompatOutboxPublisher.new.publishBatch mixedTable
    (.alone .new mixedTable 1 ⟨fun _ => false, fun _ => 0⟩ (fun _ => none))
    wearyBroker 0).table.rows.map
      (fun row => (row.attempts, row.availableAt, row.publishedAt, row.lastError))) =
    [(1, 1000001, none, some CompatOutboxError.invalidSubject.toString), (1, 0, some 1, none),
      (1, 1000001, none, some "timed out"), (0, 0, none, none)] := by decide +kernel

end Sample

/- Runs. -/

/- The committed table and everything handed to the broker. -/
structure CompatState where
  table : CompatTable
  log : List Handed

section Runs

variable [External] {s t : CompatState}

/- A producer's commit, or a batch that returns. Other commits may have come since the batch
claimed its rows, so batches overlap. -/
inductive CompatStep : CompatState → CompatState → Prop where
  | enqueued {table after : CompatTable} {log : List Handed} {now : Timestamp} {subject : String}
      {messageId tenantId : Uuid} {encoded : Except CompatEnvelopeError (List UInt8)} :
      CompatOutbox.enqueue table now subject messageId tenantId encoded = .ok after →
      CompatStep ⟨table, log⟩ ⟨after, log⟩
  | batch {P : Type} (publisher : CompatOutboxPublisher) (table : CompatTable)
      (env : Surroundings publisher table) (broker : CompatBroker P) (p : P) (log : List Handed) :
      CompatStep ⟨env.committed, log⟩ ⟨(publisher.publishBatch table env broker p).table,
        log ++ (publisher.publishBatch table env broker p).log⟩

theorem enqueue_rows {after : CompatTable} {subject : String} {messageId tenantId : Uuid}
    {encoded : Except CompatEnvelopeError (List UInt8)}
    (accepted : CompatOutbox.enqueue table now subject messageId tenantId encoded = .ok after) :
    ∃ body, validateCompatPublish subject body.length = .ok () ∧
      after.rows = table.rows ++ [compatEnqueued messageId tenantId subject body now] := by
  simp only [CompatOutbox.enqueue, bind, Except.bind, pure, Except.pure, throw, throwThe,
    MonadExceptOf.throw] at accepted
  split at accepted
  · contradiction
  · split at accepted
    · contradiction
    · rename_i body _
      split at accepted
      · contradiction
      · rename_i valid
        split at accepted
        · obtain rfl := Except.ok.inj accepted
          exact ⟨body, valid, rfl⟩
        · contradiction

section Returned

variable {front stop rest : List CompatRow} {env : Surroundings publisher table}
  {after : CompatTable} {broker : CompatBroker P} {p p' : P}
  (settles : BatchSettles publisher table env broker p p' front stop rest n after log)
include settles

theorem BatchSettles.published_stay (inside : row ∈ env.committed.rows)
    (published : row.publishedAt.isSome = true) : row ∈ after.rows := by
  apply settles.elsewhere row inside
  intro member
  have unpublished := (settles.due row (List.mem_append_left _ member)).2.1
  rw [unpublished] at published
  cases published

/-- The published rows after a batch were published before, or acknowledged in it. -/
theorem BatchSettles.origin (inside : row ∈ after.rows)
    (published : row.publishedAt.isSome = true) :
    row ∈ env.committed.rows ∨ row.handed (.ok ()) ∈ log := by
  have listed := List.mem_map_of_mem (f := fun row : CompatRow => row.messageId) inside
  rw [settles.keys] at listed
  obtain ⟨before, inside', same⟩ := List.mem_map.mp listed
  cases stamp : before.publishedAt with
  | some at_ =>
    have kept := settles.published_stay inside' (by rw [stamp]; rfl)
    exact .inl (after.same_id kept inside same ▸ inside')
  | none =>
    have turned : before.turnsPublished after = true := by
      simp only [CompatRow.turnsPublished, stamp, Option.isNone_none, Bool.true_and,
        List.any_eq_true, Bool.and_eq_true, beq_iff_eq]
      exact ⟨row, inside, same.symm, published⟩
    obtain ⟨_, marked, acked⟩ := settles.acknowledged before inside' turned
    right
    rw [← after.same_id marked inside same]
    exact acked

end Returned

/-- Whatever becomes of a call, it hands over valid rows that it claimed. -/
theorem publishRows_guarded {env : Surroundings publisher table} {broker : CompatBroker P}
    {published : Nat} (call : CompatCall P) :
    ∀ handed ∈ (env.publishRows broker (rows.map CompatRow.claimed) published call).2.log,
      handed ∈ call.log ∨ ∃ row ∈ rows, ∃ answer, handed = row.handed answer ∧
        row.check = .ok () := by
  induction rows generalizing published call with
  | nil => exact fun handed member => .inl member
  | cons row rest ih =>
    have later {next : CompatCall P} {count : Nat} (handed : Handed)
        (member : handed ∈ (env.publishRows broker (rest.map CompatRow.claimed) count
          next).2.log) :
        handed ∈ next.log ∨
          ∃ r ∈ row :: rest, ∃ answer, handed = r.handed answer ∧ r.check = .ok () := by
      rcases ih next handed member with old | ⟨r, listed, facts⟩
      · exact .inl old
      · exact .inr ⟨r, List.mem_cons_of_mem _ listed, facts⟩
    intro handed member
    simp only [List.map_cons, Surroundings.publishRows] at member
    split at member
    · split at member
      · exact .inl member
      · rename_i next done
        exact execute_log done ▸ later handed member
    · rename_i valid
      -- what this row adds to the log
      have named (sent : handed ∈ (call.publish broker row.claimed).log) : handed ∈ call.log ∨
          ∃ r ∈ row :: rest, ∃ answer, handed = r.handed answer ∧ r.check = .ok () := by
        rcases List.mem_append.mp sent with old | new
        · exact .inl old
        · exact .inr ⟨row, List.mem_cons_self, _, List.mem_singleton.mp new, valid⟩
      split at member
      · split at member
        · exact named member
        · rename_i next done
          rcases later handed member with sent | found
          · exact named (execute_log done ▸ sent)
          · exact .inr found
      · split at member
        · exact named member
        · rename_i next done
          exact named (execute_log done ▸ member)

theorem publishBatch_log (env : Surroundings publisher table) (broker : CompatBroker P) (p : P) :
    (publisher.publishBatch table env broker p).log = [] ∨
      (publisher.publishBatch table env broker p).log = (env.publishRows broker
        ((compatClaim table env.now publisher.batchSize env.plan).map CompatRow.claimed) 0
        ⟨2, [], p, []⟩).2.log := by
  unfold CompatOutboxPublisher.publishBatch
  split
  · exact .inl rfl
  · split
    · exact .inl rfl
    · split
      · exact .inl rfl
      · split
        · rename_i settled
          rw [settled]
          exact .inr rfl
        · rename_i settled
          rw [settled]
          split <;> exact .inr rfl

/-- A call hands over only valid rows that are unpublished in the table it commits to. -/
theorem publishBatch_guarded (env : Surroundings publisher table)
    (broker : CompatBroker P) (p : P) :
    ∀ handed ∈ (publisher.publishBatch table env broker p).log, ∃ row ∈ env.committed.rows,
      row.publishedAt = none ∧ row.check = .ok () ∧ ∃ answer, handed = row.handed answer := by
  intro handed member
  rcases publishBatch_log env broker p with empty | same
  · rw [empty] at member
    cases member
  · rw [same] at member
    rcases publishRows_guarded _ handed member with impossible |
      ⟨row, picked, answer, named, valid⟩
    · cases impossible
    · have unpublished := (due_iff.mp (mem_compatClaim picked).2.1).1
      exact ⟨row, env.held row picked, unpublished, valid, answer, named⟩

/-- One commit keeps the published rows, publishes with an acknowledgement only, and comes after
nothing but messages of valid rows that were not published yet. -/
theorem compatStep_spec (step : CompatStep s t) :
    (∀ row ∈ s.table.rows, row.publishedAt.isSome = true → row ∈ t.table.rows) ∧
      (∀ row ∈ t.table.rows, row.publishedAt.isSome = true →
        row ∈ s.table.rows ∨ row.handed (.ok ()) ∈ t.log) ∧
      ∃ new, t.log = s.log ++ new ∧ ∀ handed ∈ new, ∃ row ∈ s.table.rows,
        row.publishedAt = none ∧ row.check = .ok () ∧
          ∃ answer, handed = row.handed answer := by
  cases step with
  | enqueued accepted =>
    obtain ⟨body, _, rows⟩ := enqueue_rows accepted
    refine ⟨?_, ?_, [], (List.append_nil _).symm, nofun⟩
    · intro row inside _
      exact rows ▸ List.mem_append_left _ inside
    · intro row inside published
      rw [rows] at inside
      rcases List.mem_append.mp inside with old | new
      · exact .inl old
      · rw [List.mem_singleton.mp new] at published
        cases published
  | batch publisher table env broker p log =>
    refine ⟨?_, ?_, _, rfl, publishBatch_guarded env broker p⟩
    · intro row inside published
      cases result : (publisher.publishBatch table env broker p).result with
      | error e => exact (publishBatch_failed result).symm ▸ inside
      | ok n =>
        obtain ⟨front, stop, rest, settles⟩ := publishBatch_returned result
        exact settles.published_stay inside published
    · intro row inside published
      cases result : (publisher.publishBatch table env broker p).result with
      | error e => exact .inl (publishBatch_failed result ▸ inside)
      | ok n =>
        obtain ⟨front, stop, rest, settles⟩ := publishBatch_returned result
        rcases settles.origin inside published with old | acked
        · exact .inl old
        · exact .inr (List.mem_append_right _ acked)

/-- In every run of producers and overlapping batches a row is published only with an
acknowledgement of its own message, and stays published. -/
theorem published_acknowledged (reached : Relation.ReflTransGen CompatStep s t) :
    (∀ row ∈ t.table.rows, row.publishedAt.isSome = true →
      row ∈ s.table.rows ∨ row.handed (.ok ()) ∈ t.log) ∧
    ∀ row ∈ s.table.rows, row.publishedAt.isSome = true → row ∈ t.table.rows := by
  induction reached with
  | refl => exact ⟨fun _ inside _ => .inl inside, fun _ inside _ => inside⟩
  | tail _ step ih =>
    obtain ⟨stay, acked, new, grown, _⟩ := compatStep_spec step
    constructor
    · intro row inside published
      rcases acked row inside published with old | here
      · have before := ih.1 row old published
        rw [grown]
        exact before.imp_right (List.mem_append_left new)
      · exact .inr here
    · intro row inside published
      exact stay row (ih.2 row inside published) published

end Runs

end FiduciaMessaging
