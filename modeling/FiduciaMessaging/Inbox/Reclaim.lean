import FiduciaMessaging.Inbox.Suppression
import FiduciaMessaging.Outbox.Effects

/-! Claims of the per-consumer inbox against the retention purge. A message is claimed again
only when the transaction that claimed it is undone, or its claim is purged; and a claim
that was marked in its own transaction is not purged within the retention age. -/
namespace FiduciaMessaging

open Transactions Runs

variable {T : Type} {s s' : PgInbox T} {a : InboxAction T} {tx tx' : Nat} {claim claim' : Claim}
  {events trace : List (InboxEvent T)} {horizon : Int}

/- Two claims of one key, in this order. -/
def Reclaims (trace : List (InboxEvent T)) (tx : Nat) (claim : Claim)
    (between : List (InboxEvent T)) : Prop :=
  ∃ before tx' claim' after, claim.key = claim'.key ∧
    trace = before ++ .claimed tx claim :: (between ++ .claimed tx' claim' :: after)

/- A transaction marks its own claims only, and no purge looks back less than the horizon. -/
def retains (horizon : Int) (s : PgInbox T) : InboxAction T → Bool
  | .markProcessed tx consumer messageId =>
    (s.claims.filter (Version.matched (fun claim _ => claim.key == (consumer, messageId)) tx)).all
      (fun v => v.writer == tx)
  | .purge olderThan => decide (horizon ≤ olderThan.asMillis * millisecond)
  | _ => true

/-- A claim is logged by the insert that won its key. -/
theorem claimed_event (taken : s.Steps a s') (grown : s'.trace = s.trace ++ events)
    (member : .claimed tx claim ∈ events) : (∃ rest, events = .claimed tx claim :: rest ∧
        ∀ tx' claim', .claimed tx' claim' ∉ rest) ∧
      (∀ v ∈ s.claims, v.row.key ≠ claim.key) ∧ ∃ v ∈ s'.claims, v.row = claim ∧
      v.writer = tx := by
  have appended {new : List (InboxEvent T)} (made : s'.trace = s.trace ++ new) : events = new :=
    List.append_cancel_left (grown.symm.trans made)
  have silent {new : List (InboxEvent T)} (made : s'.trace = s.trace ++ new)
      (none_ : .claimed tx claim ∉ new) : False := none_ (appended made ▸ member)
  cases taken with
  | @claimed other consumer envelope startedAt new active made fresh =>
    obtain rfl := appended rfl
    obtain ⟨rfl, rfl⟩ : tx = other ∧ claim = new := by simpa using member
    refine ⟨⟨_, rfl, by simp⟩, fresh, _,
      List.mem_append_right _ List.mem_cons_self, rfl, rfl⟩
  | start => exact (silent (List.append_nil _).symm (by simp)).elim
  | marked => exact (silent (List.append_nil _).symm (by simp)).elim
  | rollback => exact (silent (List.append_nil _).symm (by simp)).elim
  | unpurged => exact (silent (List.append_nil _).symm (by simp)).elim
  | tick => exact (silent (List.append_nil _).symm (by simp)).elim
  | _ => exact (silent rfl (by simp)).elim

structure Separated (s : PgInbox T) : Prop where
  held : ∀ before tx claim after, s.trace = before ++ .claimed tx claim :: after →
    s.sessions tx = some .rolledBack ∨ (∃ v ∈ s.claims, v.row = claim ∧ v.writer = tx) ∨
      .purged claim ∈ after
  apart : ∀ tx claim between, Reclaims s.trace tx claim between →
    s.sessions tx = some .rolledBack ∨ .purged claim ∈ between

theorem separated_initial (now : Timestamp) : Separated (.initial T now) where
  held := by simp [PgInbox.initial]
  apart := by simp [PgInbox.initial, Reclaims]

theorem separated_step (separated : Separated s) (taken : s.Steps a s') : Separated s' where
  held := by
    intro before tx claim after split
    obtain ⟨events, grown⟩ := trace_grows taken
    obtain ⟨rest, former⟩ | ⟨mid, rfl, new⟩ := trace_split (grown.symm.trans split)
    · have later : after = rest ++ events := by simpa [grown, former] using split.symm
      obtain undone | ⟨v, inside, row, writer⟩ | gone :=
        separated.held before tx claim rest former
      · exact .inl (taken.rolledBack undone)
      · obtain ⟨v', inside', row', writer', _⟩ | ⟨_, undone⟩ |
            ⟨_, more, grown', gone⟩ :=
          taken.image inside
        · exact .inr (.inl ⟨v', inside', row'.trans row, writer'.trans writer⟩)
        · exact .inl (writer ▸ undone)
        · rw [List.append_cancel_left (grown'.symm.trans grown), row] at gone
          exact .inr (.inr (later ▸ List.mem_append_right _ gone))
      · exact .inr (.inr (later ▸ List.mem_append_left _ gone))
    · have member : .claimed tx claim ∈ events := by simp [new]
      exact .inr (.inl (claimed_event taken grown member).2.2)
  apart := by
    rintro tx claim between ⟨before, tx', claim', after, same, split⟩
    obtain ⟨events, grown⟩ := trace_grows taken
    have whole : s.trace ++ events =
        (before ++ .claimed tx claim :: between) ++ .claimed tx' claim' :: after := by
      simp [← grown, split]
    obtain ⟨rest, former⟩ | ⟨mid, ends, new⟩ := trace_split whole
    · refine (separated.apart tx claim between ⟨before, tx', claim', rest, same, ?_⟩).imp_left
        taken.rolledBack
      simp [former]
    · have member : .claimed tx' claim' ∈ events := by simp [new]
      obtain ⟨⟨rest, first, quiet⟩, fresh, _⟩ := claimed_event taken grown member
      cases mid with
      | nil =>
        obtain undone | ⟨v, inside, rfl, _⟩ | gone :=
          separated.held before tx claim between (by simpa using ends.symm)
        · exact .inl (taken.rolledBack undone)
        · exact absurd same (fresh v inside)
        · exact .inr gone
      | cons e mid =>
        -- nothing but the answer follows a claim in one step
        have again : rest = mid ++ .claimed tx' claim' :: after :=
          (List.cons.inj (first.symm.trans new)).2
        exact absurd (again ▸ by simp) (quiet tx' claim')

/-- A transaction that is not there was not there, and an active one began when it did. -/
theorem session_origin (taken : s.Steps a s') (tx : Nat) :
    (s'.sessions tx = none → s.sessions tx = none) ∧
      ∀ startedAt reading, s'.sessions tx = some (.active startedAt reading) →
        s.sessions tx = none ∨ ∃ before, s.sessions tx = some (.active startedAt before) := by
  have kept (same : s'.sessions = s.sessions) : (s'.sessions tx = none → s.sessions tx = none) ∧
      ∀ startedAt reading, s'.sessions tx = some (.active startedAt reading) →
        s.sessions tx = none ∨ ∃ before, s.sessions tx = some (.active startedAt before) := by
    rw [same]
    exact ⟨id, fun _ reading here => .inr ⟨reading, here⟩⟩
  have set {other : Nat} {session : Session T} (after : ∀ t, s'.sessions t =
      if t = other then some session else s.sessions t)
      (began : ∀ startedAt reading, session = .active startedAt reading →
        s.sessions other = none ∨
          ∃ before, s.sessions other = some (.active startedAt before)) :
      (s'.sessions tx = none → s.sessions tx = none) ∧
      ∀ startedAt reading, s'.sessions tx = some (.active startedAt reading) →
        s.sessions tx = none ∨ ∃ before, s.sessions tx = some (.active startedAt before) := by
    rw [after]
    by_cases same : tx = other
    · simpa [same] using began
    · simpa [same] using fun _ reading here => .inr ⟨reading, here⟩
  cases taken with
  | start free => exact set (fun _ => PgInbox.withSession_sessions _) (fun _ _ _ => .inl free)
  | insertFault active => exact set (fun _ => PgInbox.abort_sessions) (by simp)
  | conflicted active => exact set (fun _ => PgInbox.withSession_sessions _) (by simp [active])
  | readFault active => exact set (fun _ => PgInbox.abort_sessions) (by simp)
  | answered active => exact set (fun _ => PgInbox.withSession_sessions _) (by simp [active])
  | commit active => exact set (fun _ => PgInbox.withSession_sessions _) (by simp)
  | rollback active => exact set (fun _ => PgInbox.abort_sessions) (by simp)
  | _ => exact kept rfl

/- A mark, committed or not, carries the time of the claim. -/
def Dated (v : Version Claim (Option Timestamp) Nat) : Prop :=
  (∀ at_, v.data = some at_ → at_ = v.row.receivedAt) ∧
    ∀ tx data, v.pending = some (tx, data) → data = some v.row.receivedAt

theorem dated_fresh : Dated (.fresh tx claim none) := by simp [Dated, Version.fresh]

variable {v : Version Claim (Option Timestamp) Nat}

theorem Dated.discard (dated : Dated v) : Dated (v.discard tx) := by
  refine ⟨dated.1, ?_⟩
  intro editor data pending
  simp only [Version.discard] at pending
  split at pending
  · exact dated.2 editor data pending
  · cases pending

theorem Dated.settle (dated : Dated v) : Dated (v.settle tx) := by
  constructor
  · intro at_ seen
    simp only [Version.settle, Version.current] at seen
    split at seen
    · rename_i pending
      split at seen
      · exact Option.some.inj (seen.symm.trans (dated.2 _ _ pending))
      · exact dated.1 at_ seen
    · exact dated.1 at_ seen
  · intro editor data pending
    simp only [Version.settle] at pending
    split at pending
    · exact dated.2 editor data pending
    · cases pending

/- A claim carries the time its transaction began, as its mark does. -/
structure Stamped (horizon : Int) (s : PgInbox T) : Prop where
  unused : ∀ tx, s.sessions tx = none → ∀ v ∈ s.claims, v.writer ≠ tx
  began : ∀ v ∈ s.claims, ∀ startedAt reading,
    s.sessions v.writer = some (.active startedAt reading) → v.row.receivedAt = startedAt
  dated : ∀ v ∈ s.claims, Dated v
  aged : ∀ claim, .purged claim ∈ s.trace → claim.receivedAt + horizon < s.now

theorem stamped_initial (now : Timestamp) : Stamped horizon (.initial T now) := by
  constructor <;> simp [PgInbox.initial]

/-- The transactions go on with their claims as before, however a step changes the marks. -/
theorem Stamped.linked (stamped : Stamped horizon s) (taken : s.Steps a s') :
    (∀ tx, s'.sessions tx = none → ∀ v ∈ s'.claims, v.writer ≠ tx) ∧
      ∀ v ∈ s'.claims, ∀ startedAt reading,
        s'.sessions v.writer = some (.active startedAt reading) →
          v.row.receivedAt = startedAt := by
  have fresh {v'} (member : v' ∈ s'.claims) :
      (∃ v ∈ s.claims, v'.row = v.row ∧ v'.writer = v.writer) ∨
      ∃ startedAt, s.sessions v'.writer = some (.active startedAt none) ∧
        s'.sessions = s.sessions ∧ v'.row.receivedAt = startedAt := by
    cases taken with
    | @claimed tx consumer envelope startedAt claim active made _ =>
      rcases List.mem_append.mp member with old | new
      · exact .inl ⟨v', old, rfl, rfl⟩
      · obtain rfl := List.mem_singleton.mp new
        exact .inr ⟨startedAt, active, rfl, by rw [Version.fresh, made]⟩
    | insertFault =>
      obtain ⟨v, inside, _, rfl⟩ := mem_rollback.mp member
      exact .inl ⟨v, inside, rfl, rfl⟩
    | readFault =>
      obtain ⟨v, inside, _, rfl⟩ := mem_rollback.mp member
      exact .inl ⟨v, inside, rfl, rfl⟩
    | rollback =>
      obtain ⟨v, inside, _, rfl⟩ := mem_rollback.mp member
      exact .inl ⟨v, inside, rfl, rfl⟩
    | marked _ updated =>
      obtain ⟨v, inside, row, writer, _⟩ := mem_update updated member
      exact .inl ⟨v, inside, row, writer⟩
    | commit =>
      obtain ⟨v, inside, rfl⟩ := mem_commit.mp member
      exact .inl ⟨v, inside, rfl, rfl⟩
    | purged => exact .inl ⟨v', (RowSet.mem_deleteWhere.mp member).1, rfl, rfl⟩
    | _ => exact .inl ⟨v', member, rfl, rfl⟩
  constructor
  · intro tx free v' member
    rcases fresh member with ⟨v, inside, _, writer⟩ | ⟨startedAt, active, same, _⟩
    · exact writer ▸ stamped.unused tx ((session_origin taken tx).1 free) v inside
    · rintro rfl
      rw [same, active] at free
      cases free
  · intro v' member startedAt reading here
    rcases fresh member with ⟨v, inside, row, writer⟩ | ⟨began, active, same, made⟩
    · rw [writer] at here
      rcases (session_origin taken v.writer).2 startedAt reading here with free |
        ⟨before, there⟩
      · exact absurd rfl (stamped.unused _ free v inside)
      · exact row ▸ stamped.began v inside startedAt before there
    · rw [same, active] at here
      cases here
      exact made

theorem stamped_step (stamped : Stamped horizon s) (allowed : retains horizon s a = true)
    (taken : s.step a = some s') : Stamped horizon s' := by
  have steps := PgInbox.steps_of_step taken
  obtain ⟨unused, began⟩ := stamped.linked steps
  have silent (same : s'.now = s.now) {events : List (InboxEvent T)}
      (grown : s'.trace = s.trace ++ events) (none_ : ∀ claim, .purged claim ∉ events) :
      ∀ claim, .purged claim ∈ s'.trace → claim.receivedAt + horizon < s'.now := by
    intro claim member
    rw [grown] at member
    exact same ▸ stamped.aged claim ((List.mem_append.mp member).resolve_right (none_ claim))
  have rolled {tx} (after : s'.claims = Transactions.rollback tx s.claims) :
      ∀ v ∈ s'.claims, Dated v := by
    intro v' member
    obtain ⟨v, inside, _, rfl⟩ := mem_rollback.mp (after ▸ member)
    exact (stamped.dated v inside).discard
  cases a with
  | markProcessed tx consumer messageId =>
    simp only [PgInbox.step, PgInbox.markProcessed] at taken
    split at taken
    · rename_i startedAt active
      obtain ⟨⟨claims, n⟩, updated, rfl⟩ := Option.map_eq_some_iff.mp taken
      refine ⟨unused, began, ?_, stamped.aged⟩
      intro v' member
      unfold Transactions.update at updated
      split at updated
      · contradiction
      · obtain ⟨rfl, _⟩ := Prod.mk.inj (Option.some.inj updated)
        obtain ⟨v, inside, rfl⟩ := RowSet.mem_updateWhere.mp member
        split
        · rename_i matched
          have own : v.writer = tx :=
            eq_of_beq (List.all_eq_true.mp allowed v (List.mem_filter.mpr ⟨inside, matched⟩))
          have same := stamped.began v inside startedAt none (own ▸ active)
          refine ⟨(stamped.dated v inside).1, ?_⟩
          rintro editor data ⟨⟩
          exact congrArg some same.symm
        · exact stamped.dated v inside
    · contradiction
  | purge olderThan =>
    simp only [PgInbox.step, PgInbox.purgeProcessedConsumerInbox] at taken
    split at taken
    · exact Option.some.inj taken ▸ stamped
    · rename_i cutoffMs positive
      obtain ⟨rfl, _⟩ := positiveMs_ok positive
      obtain ⟨claims, deleted, rfl⟩ := Option.map_eq_some_iff.mp taken
      refine ⟨unused, began, ?_, ?_⟩
      · intro v member
        have kept : v ∈ claims := member
        rw [delete_spec deleted] at kept
        exact stamped.dated v (RowSet.mem_deleteWhere.mp kept).1
      · intro claim member
        rcases List.mem_append.mp member with old | new
        · exact stamped.aged claim old
        · obtain ⟨v, gone, same⟩ := List.mem_map.mp new
          obtain rfl := InboxEvent.purged.inj same
          obtain ⟨inside, old⟩ := List.mem_filter.mp gone
          simp only [PgInbox.purgeable, Bool.and_eq_true, Option.any_eq_true,
            decide_eq_true_eq] at old
          obtain ⟨_, at_, marked, early⟩ := old
          have stamp : at_ = v.row.receivedAt := (stamped.dated v inside).1 at_ marked
          have far : horizon ≤ olderThan.asMillis * millisecond := of_decide_eq_true allowed
          change v.row.receivedAt + horizon < s.now
          unfold Timestamp at *
          omega
  | commit tx =>
    cases steps with
    | commit =>
      refine ⟨unused, began, ?_, silent rfl rfl (by simp)⟩
      intro v' member
      obtain ⟨v, inside, rfl⟩ := mem_commit.mp member
      exact (stamped.dated v inside).settle
  | tick elapsed =>
    cases steps with
    | tick =>
      refine ⟨unused, began, stamped.dated, ?_⟩
      intro claim member
      have before : claim.receivedAt + horizon < s.now := stamped.aged claim member
      exact before.trans_le (Int.le_add_of_nonneg_right (Int.natCast_nonneg elapsed))
  | beginInsert tx consumer envelope fault =>
    cases steps with
    | claimed =>
      refine ⟨unused, began, ?_, silent rfl rfl (by simp)⟩
      intro v' member
      rcases List.mem_append.mp member with old | new
      · exact stamped.dated v' old
      · exact List.mem_singleton.mp new ▸ dated_fresh
    | insertFault => exact ⟨unused, began, rolled rfl, silent rfl rfl (by simp)⟩
    | _ => exact ⟨unused, began, stamped.dated, silent rfl rfl (by simp)⟩
  | beginReadBack tx fault =>
    cases steps with
    | readFault => exact ⟨unused, began, rolled rfl, silent rfl rfl (by simp)⟩
    | answered => exact ⟨unused, began, stamped.dated, silent rfl rfl (by simp)⟩
  | start tx =>
    cases steps with
    | start => exact ⟨unused, began, stamped.dated, stamped.aged⟩
  | rollback tx =>
    cases steps with
    | rollback => exact ⟨unused, began, rolled rfl, stamped.aged⟩

/-- Of two claims of one message the first is undone with its transaction or purged before
the second is made; and where claims are marked in their own transactions, the second is
made more than a horizon after the first transaction began, if every purge looks that
far back. -/
theorem claimed_again_after_purge (now : Timestamp) :
    (∀ s : PgInbox T, Reaches PgInbox.step (fun _ _ => True) (.initial T now) s →
      ∀ tx claim between, Reclaims s.trace tx claim between →
        s.sessions tx = some .rolledBack ∨ .purged claim ∈ between) ∧
    ∀ (horizon : Int) (s : PgInbox T),
      Reaches PgInbox.step (fun x a => retains horizon x a = true) (.initial T now) s →
      ∀ tx claim between, Reclaims s.trace tx claim between →
        s.sessions tx = some .rolledBack ∨ claim.receivedAt + horizon < s.now := by
  have separated (s : PgInbox T)
      (reached : Reaches PgInbox.step (fun _ _ => True) (.initial T now) s) : Separated s :=
    reached.invariant Separated (separated_initial now)
      (fun _ _ _ before _ taken => separated_step before (PgInbox.steps_of_step taken))
  refine ⟨fun s reached => (separated s reached).apart, ?_⟩
  intro horizon s reached tx claim between again
  have stamped : Stamped horizon s := reached.invariant (Stamped horizon) (stamped_initial now)
    (fun _ _ _ before allowed taken => stamped_step before allowed taken)
  have known := separated s (reached.mono fun _ _ _ => trivial)
  refine (known.apart tx claim between again).imp_right ?_
  intro gone
  apply stamped.aged
  obtain ⟨before, tx', claim', after, _, split⟩ := again
  rw [split]
  simp [gone]

section Sample

open Sample

/- Message 42 is processed at 0 and purged at 2000 for being older than a millisecond. -/
def retainedRun : List (InboxAction Unit) :=
  [.start 1, .beginInsert 1 "billing" (tenantOrder 1) none,
    .markProcessed 1 "billing" 42, .commit 1,
    .tick 2000, .purge (Duration.fromMillis 1), .start 2,
    .beginInsert 2 "billing" (tenantOrder 1) none]

theorem claimed_again_after_purge_retained : ∃ s : PgInbox Unit,
    run (guarded PgInbox.step (retains 1000)) (.initial Unit 0) retainedRun = some s ∧
    s.sessions 1 = some .committed ∧ (0 : Int) + 1000 < s.now := by
  have ends : (run (guarded PgInbox.step (retains 1000)) (.initial Unit 0) retainedRun).map
      (fun s => (s.sessions 1, s.trace)) = some (some .committed,
        [.claimed 1 ⟨"billing", 42, some 1, 0⟩,
          .returned 1 "billing" (tenantOrder 1) (.ok .process),
          .committed 1, .purged ⟨"billing", 42, some 1, 0⟩,
          .claimed 2 ⟨"billing", 42, some 1, 2000⟩,
          .returned 2 "billing" (tenantOrder 1) (.ok .process)]) := by decide +kernel
  obtain ⟨s, taken, view⟩ := Option.map_eq_some_iff.mp ends
  obtain ⟨committed, trace⟩ := Prod.mk.inj view
  refine ⟨s, taken, committed, ?_⟩
  have again : Reclaims s.trace 1 ⟨"billing", 42, some 1, 0⟩
      [.returned 1 "billing" (tenantOrder 1) (.ok .process), .committed 1,
        .purged ⟨"billing", 42, some 1, 0⟩] :=
    ⟨[], 2, ⟨"billing", 42, some 1, 2000⟩, _, rfl, trace⟩
  have apart := (claimed_again_after_purge 0).2 1000 s (reaches_of_guarded taken) 1 _ _ again
  rw [committed] at apart
  simpa using apart

end Sample

end FiduciaMessaging
