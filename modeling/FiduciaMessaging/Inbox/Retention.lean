import FiduciaMessaging.Inbox.Message
import FiduciaMessaging.Outbox.Relay
import FiduciaMessaging.Foundations.Runs

/-! The message-id-keyed inbox over time. Claims, marks and purges commit one at a time, from
any connection. Whether a claim wins is a matter of what was claimed, marked and purged
before it, and a claim that was won is honoured for as long as the retention age. -/
namespace FiduciaMessaging

open RowSet Runs

/- No row matched is a warning in the log, not an error. -/
def inboxMarkProcessed (table : List InboxRow) (messageId : Uuid) (at_ : Timestamp) :
    List InboxRow × Nat :=
  (updateWhere (fun row => row.messageId == messageId)
      (fun row => { row with processedAt := some at_ }) table,
    affected (fun row => row.messageId == messageId) table)

def InboxRow.purgeable (row : InboxRow) (cutoff : Timestamp) : Bool :=
  row.processedAt.any (fun at_ => decide (at_ < cutoff))

def purgeProcessedInbox (table : List InboxRow) (now : Timestamp) (olderThan : Duration) :
    Except MessagingError (List InboxRow × Nat) := do
  let cutoffMs ← positiveMs olderThan "retention age"
  let cutoff := now - cutoffMs * millisecond
  return (deleteWhere (fun row => row.purgeable cutoff) table,
    affected (fun row => row.purgeable cutoff) table)

/- What the database did, and when. A claim's answer may be lost on its way to the caller. -/
inductive InboxEntry where
  | claimed (at_ : Timestamp) (call : InboxCall) (won : Bool) (heard : Bool)
  | marked (at_ : Timestamp) (messageId : Uuid) (processedAt : Timestamp)
  | purged (at_ : Timestamp) (cutoff : Timestamp)

structure InboxStore where
  now : Timestamp
  table : List InboxRow
  trace : List InboxEntry

inductive InboxStatement where
  | tryInsert (call : InboxCall) (reply : Reply)
  | markProcessed (messageId : Uuid) (at_ : Timestamp) (reply : Reply)
  | purge (olderThan : Duration) (reply : Reply)
  | tick (elapsed : Nat)

def InboxStore.initial (now : Timestamp) : InboxStore := ⟨now, [], []⟩

def InboxStore.tryInsert (s : InboxStore) (call : InboxCall) (heard : Bool) : InboxStore :=
  let (table, won) := call.serve s.table
  { s with table := table, trace := s.trace ++ [.claimed s.now call won heard] }

def InboxStore.markProcessed (s : InboxStore) (messageId : Uuid) (at_ : Timestamp) : InboxStore :=
  let (table, _) := inboxMarkProcessed s.table messageId at_
  { s with table := table, trace := s.trace ++ [.marked s.now messageId at_] }

def InboxStore.purge (s : InboxStore) (olderThan : Duration) : InboxStore :=
  match purgeProcessedInbox s.table s.now olderThan with
  | .error _ => s
  | .ok (table, _) =>
    let cutoff := s.now - olderThan.asMillis * millisecond
    { s with table := table, trace := s.trace ++ [.purged s.now cutoff] }

/- A statement that failed left nothing; one whose reply was lost took effect. -/
def InboxStore.step (s : InboxStore) : InboxStatement → Option InboxStore
  | .tryInsert call .ok => some (s.tryInsert call true)
  | .tryInsert call (.lost _) => some (s.tryInsert call false)
  | .markProcessed messageId at_ .ok => some (s.markProcessed messageId at_)
  | .markProcessed messageId at_ (.lost _) => some (s.markProcessed messageId at_)
  | .purge olderThan .ok => some (s.purge olderThan)
  | .purge olderThan (.lost _) => some (s.purge olderThan)
  | .tick elapsed => some { s with now := s.now + elapsed }
  | _ => some s

/- The history of a claim: the mark it carries, and whether a purge took it. -/

def InboxEntry.mark (messageId : Uuid) (last : Option Timestamp) : InboxEntry → Option Timestamp
  | .marked _ id at_ => if id = messageId then some at_ else last
  | _ => last

def lastMark (messageId : Uuid) (since : List InboxEntry) : Option Timestamp :=
  since.foldl (InboxEntry.mark messageId) none

/- A claim was won, and this has happened since. -/
def Claimed (trace : List InboxEntry) (call : InboxCall) (since : List InboxEntry) : Prop :=
  ∃ before at_ heard, trace = before ++ .claimed at_ call true heard :: since

/- Since it was won, the claim was marked and then purged at a cutoff after its last mark. -/
def Forgotten (messageId : Uuid) (since : List InboxEntry) : Prop :=
  ∃ marks at_ cutoff rest processedAt, since = marks ++ .purged at_ cutoff :: rest ∧
    lastMark messageId marks = some processedAt ∧ processedAt < cutoff

def InboxCall.conflicts (earlier call : InboxCall) : Bool := earlier.row.conflicts call.row

def InboxCall.marked (call : InboxCall) (since : List InboxEntry) : InboxRow :=
  { call.row with processedAt := lastMark call.messageId since }

def InboxEntry.at_ : InboxEntry → Timestamp
  | .claimed at_ _ _ _ => at_
  | .marked at_ _ _ => at_
  | .purged at_ _ => at_

/- Marks are stamped no earlier than they are made, and a purge spares what `horizon` covers. -/
def InboxEntry.keeps (horizon : Int) : InboxEntry → Bool
  | .claimed _ _ _ _ => true
  | .marked at_ _ processedAt => decide (at_ ≤ processedAt)
  | .purged at_ cutoff => decide (cutoff + horizon ≤ at_)

variable {s s' : InboxStore} {table : List InboxRow} {row : InboxRow} {call earlier : InboxCall}
  {trace since : List InboxEntry} {event : InboxEntry} {messageId : Uuid} {horizon : Int}

theorem lastMark_snoc :
    lastMark messageId (since ++ [event]) = event.mark messageId (lastMark messageId since) := by
  simp [lastMark]

/-- A mark that is carried was made. -/
theorem lastMark_made {processedAt : Timestamp}
    (last : lastMark messageId since = some processedAt) :
    ∃ at_, .marked at_ messageId processedAt ∈ since := by
  induction since using List.reverseRecOn with
  | nil => simp [lastMark] at last
  | append_singleton since event ih =>
    rw [lastMark_snoc] at last
    cases event with
    | marked at_ id at' =>
      simp only [InboxEntry.mark] at last
      split at last
      · rename_i same
        exact ⟨at_, by simp [same, Option.some.inj last]⟩
      · obtain ⟨at_, made⟩ := ih last
        exact ⟨at_, by simp [made]⟩
    | _ =>
      obtain ⟨at_, made⟩ := ih last
      exact ⟨at_, by simp [made]⟩

theorem claimed_snoc : Claimed (trace ++ [event]) call since ↔
    (∃ old, since = old ++ [event] ∧ Claimed trace call old) ∨
      since = [] ∧ ∃ at_ heard, event = .claimed at_ call true heard := by
  constructor
  · rintro ⟨before, at_, heard, split⟩
    obtain ⟨old, former⟩ | ⟨mid, _, fresh⟩ := trace_split split
    · refine .inl ⟨old, ?_, before, at_, heard, former⟩
      simpa [former] using split.symm
    · cases mid with
      | nil => simp_all
      | cons _ _ => simp at fresh
  · rintro (⟨old, rfl, before, at_, heard, rfl⟩ | ⟨rfl, at_, heard, rfl⟩)
    · exact ⟨before, at_, heard, by simp⟩
    · exact ⟨trace, at_, heard, rfl⟩

theorem forgotten_snoc : Forgotten messageId (since ++ [event]) ↔ Forgotten messageId since ∨
    ∃ at_ cutoff processedAt, event = .purged at_ cutoff ∧
      lastMark messageId since = some processedAt ∧ processedAt < cutoff := by
  constructor
  · rintro ⟨marks, at_, cutoff, rest, processedAt, split, last, old⟩
    obtain ⟨rest, former⟩ | ⟨mid, behind, fresh⟩ := trace_split split
    · exact .inl ⟨marks, at_, cutoff, rest, processedAt, former, last, old⟩
    · cases mid with
      | nil => simp_all
      | cons _ _ => simp at fresh
  · rintro (⟨marks, at_, cutoff, rest, processedAt, rfl, last, old⟩ |
      ⟨at_, cutoff, processedAt, rfl, last, old⟩)
    · exact ⟨marks, at_, cutoff, rest ++ [event], processedAt, by simp, last, old⟩
    · exact ⟨since, at_, cutoff, [], processedAt, rfl, last, old⟩

theorem forgotten_nil : ¬ Forgotten messageId [] := by
  rintro ⟨marks, _, _, _, _, split, _⟩
  simp at split

/- The rows a history leaves in the table. -/
def Stands (trace : List InboxEntry) (row : InboxRow) : Prop :=
  ∃ call since, Claimed trace call since ∧ ¬ Forgotten call.messageId since ∧
    row = call.marked since

theorem marked_nil : call.marked [] = call.row := rfl

/-- A further event changes the rows that stood, and a claim that won adds one. -/
theorem stands_snoc : Stands (trace ++ [event]) row ↔
    (∃ call since, Claimed trace call since ∧ ¬ Forgotten call.messageId (since ++ [event]) ∧
      row = call.marked (since ++ [event])) ∨
    ∃ at_ call heard, event = .claimed at_ call true heard ∧ row = call.row := by
  constructor
  · rintro ⟨call, since, claimed, kept, rfl⟩
    obtain ⟨old, rfl, former⟩ | ⟨rfl, at_, heard, rfl⟩ := claimed_snoc.mp claimed
    · exact .inl ⟨call, old, former, kept, rfl⟩
    · exact .inr ⟨at_, call, heard, rfl, marked_nil⟩
  · rintro (⟨call, since, claimed, kept, rfl⟩ | ⟨at_, call, heard, rfl, rfl⟩)
    · exact ⟨call, _, claimed_snoc.mpr (.inl ⟨since, rfl, claimed⟩), kept, rfl⟩
    · exact ⟨call, [], claimed_snoc.mpr (.inr ⟨rfl, at_, heard, rfl⟩), forgotten_nil, rfl⟩

theorem stands_claimed {at_ : Timestamp} {won heard : Bool} :
    Stands (trace ++ [.claimed at_ call won heard]) row ↔
      Stands trace row ∨ won = true ∧ row = call.row := by
  rw [stands_snoc]
  have same : ∀ other since, InboxCall.marked other (since ++ [.claimed at_ call won heard]) =
      other.marked since := by simp [InboxCall.marked, lastMark_snoc, InboxEntry.mark]
  have gone : ∀ id since, Forgotten id (since ++ [.claimed at_ call won heard]) ↔
      Forgotten id since := by simp [forgotten_snoc]
  simp only [same, gone, InboxEntry.claimed.injEq, Stands]
  constructor
  · rintro (old | ⟨_, _, _, ⟨_, rfl, rfl, _⟩, rfl⟩)
    · exact .inl old
    · exact .inr ⟨rfl, rfl⟩
  · rintro (old | ⟨rfl, rfl⟩)
    · exact .inl old
    · exact .inr ⟨at_, call, heard, ⟨rfl, rfl, rfl, rfl⟩, rfl⟩

theorem stands_marked {at_ processedAt : Timestamp} {id : Uuid} :
    Stands (trace ++ [.marked at_ id processedAt]) row ↔ ∃ old, Stands trace old ∧
      (if old.messageId == id then { old with processedAt := some processedAt } else old) =
        row := by
  have carried : ∀ call since, InboxCall.marked call (since ++ [.marked at_ id processedAt]) =
      if (call.marked since).messageId == id then
        { call.marked since with processedAt := some processedAt } else call.marked since := by
    intro call since
    by_cases same : id = call.messageId
    · simp [InboxCall.marked, lastMark_snoc, InboxEntry.mark, InboxCall.row, same]
    · simp [InboxCall.marked, lastMark_snoc, InboxEntry.mark, InboxCall.row, same, Ne.symm same]
  have gone : ∀ other since, Forgotten other (since ++ [.marked at_ id processedAt]) ↔
      Forgotten other since := by simp [forgotten_snoc]
  rw [stands_snoc]
  simp only [carried, gone]
  constructor
  · rintro (⟨call, since, claimed, kept, rfl⟩ | ⟨_, _, _, other, _⟩)
    · exact ⟨call.marked since, ⟨call, since, claimed, kept, rfl⟩, rfl⟩
    · cases other
  · rintro ⟨_, ⟨call, since, claimed, kept, rfl⟩, rfl⟩
    exact .inl ⟨call, since, claimed, kept, rfl⟩

theorem stands_purged {at_ cutoff : Timestamp} : Stands (trace ++ [.purged at_ cutoff]) row ↔
    Stands trace row ∧ row.purgeable cutoff = false := by
  have same : ∀ call since, InboxCall.marked call (since ++ [.purged at_ cutoff]) =
      call.marked since := by
    intro call since
    simp [InboxCall.marked, lastMark_snoc, InboxEntry.mark]
  have old : ∀ call since, (InboxCall.marked call since).purgeable cutoff = false ↔
      ∀ processedAt, lastMark call.messageId since = some processedAt →
        ¬ processedAt < cutoff := by
    intro call since
    cases last : lastMark call.messageId since <;>
      simp [InboxCall.marked, InboxRow.purgeable, last]
  rw [stands_snoc]
  simp only [same, forgotten_snoc]
  constructor
  · rintro (⟨call, since, claimed, kept, rfl⟩ | ⟨_, _, _, other, _⟩)
    · refine ⟨⟨call, since, claimed, fun gone => kept (.inl gone), rfl⟩,
        (old call since).mpr ?_⟩
      intro processedAt last early
      exact kept (.inr ⟨at_, cutoff, processedAt, rfl, last, early⟩)
    · cases other
  · rintro ⟨⟨call, since, claimed, kept, rfl⟩, spared⟩
    refine .inl ⟨call, since, claimed, ?_, rfl⟩
    rintro (gone | ⟨_, _, processedAt, purge, last, early⟩)
    · exact kept gone
    · cases purge
      exact (old call since).mp spared processedAt last early

/- What one statement can do. -/
inductive InboxMoves (s : InboxStore) : InboxStore → Prop where
  | waited (elapsed : Nat) : InboxMoves s { s with now := s.now + elapsed }
  | claimed (call : InboxCall) (heard : Bool) : InboxMoves s (s.tryInsert call heard)
  | marked (messageId : Uuid) (at_ : Timestamp) : InboxMoves s (s.markProcessed messageId at_)
  | purged (cutoff : Timestamp) : InboxMoves s
      { s with
        table := deleteWhere (fun row => row.purgeable cutoff) s.table
        trace := s.trace ++ [.purged s.now cutoff] }

theorem InboxMoves.refl : InboxMoves s s := by
  simpa using InboxMoves.waited (s := s) 0

theorem inbox_purge_moves (olderThan : Duration) : InboxMoves s (s.purge olderThan) := by
  unfold InboxStore.purge purgeProcessedInbox positiveMs
  by_cases positive : 0 < olderThan.asMillis ∧ olderThan.asMillis ≤ i64Max
  · simp only [if_pos positive]
    exact .purged _
  · simp only [if_neg positive]
    exact .refl

theorem inbox_step_moves {a : InboxStatement} (taken : s.step a = some s') : InboxMoves s s' := by
  cases a with
  | tick elapsed => exact Option.some.inj taken ▸ .waited elapsed
  | tryInsert call reply =>
    cases reply with
    | failed _ => exact Option.some.inj taken ▸ .refl
    | _ => exact Option.some.inj taken ▸ .claimed call _
  | markProcessed messageId at_ reply =>
    cases reply with
    | failed _ => exact Option.some.inj taken ▸ .refl
    | _ => exact Option.some.inj taken ▸ .marked messageId at_
  | purge olderThan reply =>
    cases reply with
    | failed _ => exact Option.some.inj taken ▸ .refl
    | _ => exact Option.some.inj taken ▸ inbox_purge_moves olderThan

/- Each claim so far was answered by the history before it. -/
def Decided (trace : List InboxEntry) : Prop :=
  ∀ before at_ call won heard after, trace = before ++ .claimed at_ call won heard :: after →
    (won = true ↔ ∀ earlier since, Claimed before earlier since →
      earlier.conflicts call = true → Forgotten earlier.messageId since)

structure Remembering (s : InboxStore) : Prop where
  rows : ∀ row, row ∈ s.table ↔ Stands s.trace row
  decided : Decided s.trace
  ordered : s.trace.Pairwise (fun first second => first.at_ ≤ second.at_)
  past : ∀ event ∈ s.trace, event.at_ ≤ s.now

theorem decided_snoc (decided : Decided trace) (answered : ∀ at_ call won heard,
    event = .claimed at_ call won heard →
      (won = true ↔ ∀ earlier since, Claimed trace earlier since →
      earlier.conflicts call = true → Forgotten earlier.messageId since)) :
    Decided (trace ++ [event]) := by
  intro before at_ call won heard after split
  obtain ⟨rest, former⟩ | ⟨mid, rfl, fresh⟩ := trace_split split
  · exact decided before at_ call won heard rest former
  · cases mid with
    | nil =>
      obtain ⟨rfl, _⟩ := List.cons.inj fresh
      simpa using answered at_ call won heard rfl
    | cons _ _ => simp at fresh

/-- The table decides a claim as the history that left it there does. -/
theorem won_iff (rows : ∀ row, row ∈ table ↔ Stands trace row) :
    (call.serve table).2 = true ↔
    ∀ earlier since, Claimed trace earlier since → earlier.conflicts call = true →
      Forgotten earlier.messageId since := by
  rw [serve_result, Bool.not_eq_true', List.any_eq_false]
  constructor
  · intro clear earlier since claimed clash
    by_contra kept
    exact clear _ ((rows _).mpr ⟨earlier, since, claimed, kept, rfl⟩) clash
  · intro gone row inside clash
    obtain ⟨earlier, since, claimed, kept, rfl⟩ := (rows row).mp inside
    exact kept (gone earlier since claimed clash)

theorem served_rows : row ∈ (call.serve table).1 ↔
    row ∈ table ∨ (call.serve table).2 = true ∧ row = call.row := by
  rw [serve_result, serve_table, insertUnless]
  split <;> simp_all

theorem remembering_initial (now : Timestamp) : Remembering (.initial now) where
  rows := by
    intro row
    simp [InboxStore.initial, Stands, Claimed]
  decided := by
    intro before at_ call won heard after split
    simp [InboxStore.initial] at split
  ordered := List.Pairwise.nil
  past := by simp [InboxStore.initial]

theorem ordered_snoc (event : InboxEntry)
    (ordered : trace.Pairwise (fun first second => first.at_ ≤ second.at_))
    (past : ∀ e ∈ trace, e.at_ ≤ s.now) (now : event.at_ = s.now) :
    (trace ++ [event]).Pairwise (fun first second => first.at_ ≤ second.at_) ∧
      ∀ e ∈ trace ++ [event], e.at_ ≤ s.now := by
  simp only [List.pairwise_append, List.mem_append, List.mem_singleton]
  grind

theorem remembering_step (known : Remembering s) (moved : InboxMoves s s') : Remembering s' := by
  cases moved with
  | waited elapsed =>
    refine ⟨known.rows, known.decided, known.ordered, ?_⟩
    intro event member
    have before : event.at_ ≤ s.now := known.past event member
    exact before.trans (Int.le_add_of_nonneg_right (Int.natCast_nonneg elapsed))
  | claimed call heard =>
    obtain ⟨ordered, past⟩ := ordered_snoc (.claimed s.now call (call.serve s.table).2 heard)
      known.ordered known.past rfl
    refine ⟨?_, ?_, ordered, past⟩
    · intro row
      exact served_rows.trans ((or_congr_left (known.rows row)).trans stands_claimed.symm)
    · refine decided_snoc known.decided ?_
      intro at_ call won heard same
      cases same
      exact won_iff known.rows
  | marked messageId at_ =>
    obtain ⟨ordered, past⟩ := ordered_snoc (.marked s.now messageId at_) known.ordered
      known.past rfl
    refine ⟨?_, decided_snoc known.decided (by simp), ordered, past⟩
    intro row
    have rows : row ∈ (s.markProcessed messageId at_).table ↔ _ := mem_updateWhere
    rw [rows]
    simp only [known.rows]
    exact stands_marked.symm
  | purged cutoff =>
    obtain ⟨ordered, past⟩ := ordered_snoc (.purged s.now cutoff) known.ordered known.past rfl
    refine ⟨?_, decided_snoc known.decided (by simp), ordered, past⟩
    intro row
    exact mem_deleteWhere.trans ((and_congr_left' (known.rows row)).trans stands_purged.symm)

theorem remembering_of_reaches {now : Timestamp}
    (reached : Reaches InboxStore.step (fun _ _ => True) (.initial now) s) : Remembering s :=
  reached.invariant Remembering (remembering_initial now)
    (fun _ _ _ known _ taken => remembering_step known (inbox_step_moves taken))

/-- What forgets a claim lies beyond the horizon: a mark, and a purge that much later. -/
theorem Forgotten.beyond (forgotten : Forgotten messageId since)
    (ordered : (event :: since).Pairwise (fun first second => first.at_ ≤ second.at_))
    (kept : ∀ e ∈ since, e.keeps horizon = true) :
    ∃ purge ∈ since, event.at_ + horizon < purge.at_ := by
  obtain ⟨marks, at_, cutoff, rest, processedAt, rfl, last, old⟩ := forgotten
  obtain ⟨madeAt, made⟩ := lastMark_made last
  have after := (List.pairwise_cons.mp ordered).1 _ (List.mem_append_left _ made)
  have stamped := kept _ (List.mem_append_left _ made)
  have spared := kept (.purged at_ cutoff) (by simp)
  refine ⟨.purged at_ cutoff, by simp, ?_⟩
  simp only [InboxEntry.keeps, InboxEntry.at_, decide_eq_true_eq] at *
  unfold Timestamp at *
  omega

/-- Whatever the order of claims, marks and purges, a claim wins if and only if every claim
won before it that it conflicts with was marked and then purged; two conflicting claims
that both win are therefore further apart than every purge of the run looks back. -/
theorem inbox_claims_remembered (now : Timestamp)
    (reached : Reaches InboxStore.step (fun _ _ => True) (.initial now) s) :
    (∀ before at_ call won heard after,
      s.trace = before ++ .claimed at_ call won heard :: after →
      (won = true ↔ ∀ earlier since, Claimed before earlier since →
        earlier.conflicts call = true → Forgotten earlier.messageId since)) ∧
    ∀ horizon, (∀ event ∈ s.trace, event.keeps horizon = true) →
      ∀ before first earlier heard between second call heard' after,
        s.trace = before ++ .claimed first earlier true heard ::
          (between ++ .claimed second call true heard' :: after) →
        earlier.conflicts call = true → first + horizon < second := by
  have known := remembering_of_reaches reached
  refine ⟨known.decided, ?_⟩
  intro horizon keeps before first earlier heard between second call heard' after split clash
  have claimed : Claimed (before ++ .claimed first earlier true heard :: between) earlier between :=
    ⟨before, first, heard, rfl⟩
  have forgotten := (known.decided (before ++ .claimed first earlier true heard :: between) second
    call true heard' after (by simp [split])).mp rfl earlier between claimed clash
  have sorted := known.ordered
  rw [split, List.pairwise_append] at sorted
  have ends := List.pairwise_append.mp (List.pairwise_cons.mp sorted.2.1).2
  have start : (InboxEntry.claimed first earlier true heard :: between).Pairwise
      (fun one other => one.at_ ≤ other.at_) := by
    refine List.pairwise_cons.mpr ⟨fun e member => ?_, ends.1⟩
    exact (List.pairwise_cons.mp sorted.2.1).1 e (List.mem_append_left _ member)
  obtain ⟨purge, inside, beyond⟩ := forgotten.beyond start
    (fun e member => keeps e (by simp [split, member]))
  have last := ends.2.2 purge inside _ List.mem_cons_self
  exact lt_of_lt_of_le beyond last

/- Message 1 is claimed, its redelivery refused, marked at 5 and purged at 3000 for being
older than one millisecond; a message under the same key then wins again. -/
def purgedRun : List InboxStatement :=
  [.tryInsert ⟨some 7, 1, "invoice/1", 0⟩ .ok, .tryInsert ⟨some 7, 1, "invoice/1", 0⟩ .ok,
    .tick 5, .markProcessed 1 5 (.lost "closed"), .tick 2995,
    .purge (Duration.fromMillis 1) .ok, .tryInsert ⟨some 7, 2, "invoice/1", 0⟩ .ok]

theorem inbox_claims_remembered_purged : ∃ s : InboxStore,
    run InboxStore.step (.initial 0) purgedRun = some s ∧
    s.trace = [.claimed 0 ⟨some 7, 1, "invoice/1", 0⟩ true true,
      .claimed 0 ⟨some 7, 1, "invoice/1", 0⟩ false true, .marked 5 1 5, .purged 3000 2000,
      .claimed 3000 ⟨some 7, 2, "invoice/1", 0⟩ true true] ∧
    (0 : Int) + 1000 < 3000 := by
  refine ⟨_, rfl, rfl, ?_⟩
  have taken : run InboxStore.step (.initial 0) purgedRun = some _ := rfl
  have reached := reaches_of_run (fun _ _ => True) _ taken (fun _ _ _ => trivial)
  refine (inbox_claims_remembered 0 reached).2 1000 (by decide +kernel) [] 0
    ⟨some 7, 1, "invoice/1", 0⟩ true
    [.claimed 0 ⟨some 7, 1, "invoice/1", 0⟩ false true, .marked 5 1 5, .purged 3000 2000] 3000
    ⟨some 7, 2, "invoice/1", 0⟩ true [] rfl (by decide +kernel)

end FiduciaMessaging
