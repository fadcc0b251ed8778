import FiduciaMessaging.Inbox.Claims

/-! What a step of the per-consumer inbox does to the claims, the transactions
and the trace, by the branch it takes. -/
namespace FiduciaMessaging

open Transactions RowSet

variable {T : Type}

namespace PgInbox

inductive Steps (s : PgInbox T) : InboxAction T → PgInbox T → Prop where
  | start {tx} : s.sessions tx = none →
      Steps s (.start tx) (s.withSession tx (.active s.now none))
  | blank {tx consumer envelope startedAt fault} : s.sessions tx = some (.active startedAt none) →
      Text.isBlank consumer.toList = true → Steps s (.beginInsert tx consumer envelope fault)
        (s.log [.returned tx consumer envelope (.error .invalidConsumer)])
  | insertFault {tx consumer envelope startedAt error} :
      s.sessions tx = some (.active startedAt none) →
      Steps s (.beginInsert tx consumer envelope (some error))
        ((s.abort tx).log [.returned tx consumer envelope (.error (.database error))])
  | claimed {tx consumer envelope startedAt} {claim : Claim} :
      s.sessions tx = some (.active startedAt none) →
      claim = ⟨consumer, envelope.messageId, envelope.tenantId, startedAt⟩ →
      (∀ v ∈ s.claims, v.row.key ≠ claim.key) →
      Steps s (.beginInsert tx consumer envelope none)
        ({ s with claims := s.claims ++ [Version.fresh tx claim none] }.log
          [.claimed tx claim, .returned tx consumer envelope (.ok .process)])
  | conflicted {tx consumer envelope startedAt} : s.sessions tx = some (.active startedAt none) →
      (∃ v ∈ s.claims, v.row.key = (consumer, envelope.messageId) ∧ v.visible tx = true) →
      Steps s (.beginInsert tx consumer envelope none)
        ((s.withSession tx (.active startedAt (some (consumer, envelope)))).log
          [.conflicted tx consumer envelope])
  | readFault {tx consumer envelope startedAt error} :
      s.sessions tx = some (.active startedAt (some (consumer, envelope))) →
      Steps s (.beginReadBack tx (some error))
        ((s.abort tx).log [.returned tx consumer envelope (.error (.database error))])
  | answered {tx consumer envelope startedAt} :
      s.sessions tx = some (.active startedAt (some (consumer, envelope))) →
      Steps s (.beginReadBack tx none) ((s.withSession tx (.active startedAt none)).log
        [.returned tx consumer envelope (decideConflictingClaim
          ((s.findById tx (consumer, envelope.messageId)).map (·.tenantId)) envelope.messageId
          envelope.tenantId)])
  | marked {tx consumer startedAt messageId p claims n} :
      s.sessions tx = some (.active startedAt none) →
      update p (fun _ => some startedAt) tx s.claims = some (claims, n) →
      Steps s (.markProcessed tx consumer messageId) { s with claims := claims }
  | commit {tx startedAt reading} : s.sessions tx = some (.active startedAt reading) →
      Steps s (.commit tx) ({ s.withSession tx .committed with
        claims := Transactions.commit tx s.claims }.log [.committed tx])
  | rollback {tx startedAt reading} : s.sessions tx = some (.active startedAt reading) →
      Steps s (.rollback tx) (s.abort tx)
  | unpurged {olderThan} : Steps s (.purge olderThan) s
  | purged {olderThan} {gone : Version Claim (Option Timestamp) Nat → Bool} :
      Steps s (.purge olderThan)
      ({ s with claims := deleteWhere gone s.claims }.log
        ((s.claims.filter gone).map (fun (v : Version _ _ _) => .purged v.row)))
  | tick {elapsed : Nat} : Steps s (.tick elapsed) { s with now := s.now + elapsed }

theorem steps_of_step {s s' : PgInbox T} {a : InboxAction T} (taken : s.step a = some s') :
    s.Steps a s' := by
  cases a with
  | start tx =>
    simp only [step, start] at taken
    split at taken
    · rename_i fresh
      exact Option.some.inj taken ▸ .start fresh
    · contradiction
  | beginInsert tx consumer envelope fault =>
    simp only [step, beginInsert] at taken
    split at taken
    · rename_i startedAt active
      split at taken
      · rename_i empty
        exact Option.some.inj taken ▸ .blank active empty
      · split at taken
        · exact Option.some.inj taken ▸ .insertFault active
        · obtain ⟨⟨claims, rows⟩, inserted, rfl⟩ := Option.map_eq_some_iff.mp taken
          obtain ⟨rfl, rfl, fresh⟩ | ⟨rfl, rfl, found⟩ := insert_cases inserted
          · exact .claimed active rfl fresh
          · exact .conflicted active found
    · contradiction
  | beginReadBack tx fault =>
    simp only [step, beginReadBack] at taken
    split at taken
    · rename_i startedAt consumer envelope reading
      split at taken
      · exact Option.some.inj taken ▸ .readFault reading
      · exact Option.some.inj taken ▸ .answered reading
    · contradiction
  | markProcessed tx consumer messageId =>
    simp only [step, markProcessed] at taken
    split at taken
    · rename_i startedAt active
      obtain ⟨⟨claims, rows⟩, updated, rfl⟩ := Option.map_eq_some_iff.mp taken
      exact .marked active updated
    · contradiction
  | commit tx =>
    simp only [step, commit] at taken
    split at taken
    · rename_i active
      exact Option.some.inj taken ▸ .commit active
    · contradiction
  | rollback tx =>
    simp only [step, rollback] at taken
    split at taken
    · rename_i active
      exact Option.some.inj taken ▸ .rollback active
    · contradiction
  | purge olderThan =>
    simp only [step, purgeProcessedConsumerInbox] at taken
    split at taken
    · exact Option.some.inj taken ▸ .unpurged
    · obtain ⟨claims, deleted, rfl⟩ := Option.map_eq_some_iff.mp taken
      rw [delete_spec deleted]
      exact .purged
  | tick elapsed => exact Option.some.inj taken ▸ .tick

variable {s s' : PgInbox T} {a : InboxAction T} {tx other : Nat} {consumer : String}
  {envelope : MessageEnvelope T} {startedAt : Timestamp}
  {v v' : Version Claim (Option Timestamp) Nat}

theorem withSession_sessions (session : Session T) : (s.withSession other session).sessions tx =
    if tx = other then some session else s.sessions tx := Function.update_apply _ _ _ _

theorem log_sessions (events : List (InboxEvent T)) : (s.log events).sessions = s.sessions := rfl

theorem abort_sessions : (s.abort other).sessions tx =
    if tx = other then some .rolledBack else s.sessions tx := withSession_sessions _

/-- A claim is an earlier one, perhaps just committed, or the one a `begin` just inserted. -/
theorem Steps.origin (taken : s.Steps a s') (member : v' ∈ s'.claims) :
    (∃ v ∈ s.claims, v'.row = v.row ∧ v'.writer = v.writer ∧
      (v'.committed = true → v.committed = true ∨
        InboxEvent.committed v.writer ∈ s'.trace)) ∨
    InboxEvent.claimed v'.writer v'.row ∈ s'.trace ∧ v'.committed = false := by
  have rolled {tx} (member : v' ∈ Transactions.rollback tx s.claims) :
      ∃ v ∈ s.claims, v'.row = v.row ∧ v'.writer = v.writer ∧
        (v'.committed = true → v.committed = true ∨
          InboxEvent.committed v.writer ∈ s'.trace) := by
    obtain ⟨v, inside, _, rfl⟩ := mem_rollback.mp member
    exact ⟨v, inside, rfl, rfl, .inl⟩
  cases taken with
  | insertFault => exact .inl (rolled member)
  | readFault => exact .inl (rolled member)
  | rollback => exact .inl (rolled member)
  | claimed _ _ fresh =>
    rcases List.mem_append.mp member with old | new
    · exact .inl ⟨v', old, rfl, rfl, .inl⟩
    · obtain rfl := List.mem_singleton.mp new
      exact .inr ⟨List.mem_append_right _ List.mem_cons_self, rfl⟩
  | marked _ updated =>
    obtain ⟨v, inside, same, writer, committed⟩ := mem_update updated member
    exact .inl ⟨v, inside, same, writer, fun done => .inl (committed ▸ done)⟩
  | commit =>
    obtain ⟨v, inside, rfl⟩ := mem_commit.mp member
    refine .inl ⟨v, inside, rfl, rfl, fun seen => ?_⟩
    rcases Bool.or_eq_true_iff.mp seen with already | own
    · exact .inl already
    · rw [eq_of_beq own]
      exact .inr (List.mem_append_right _ List.mem_cons_self)
  | purged => exact .inl ⟨v', (mem_deleteWhere.mp member).1, rfl, rfl, .inl⟩
  | _ => exact .inl ⟨v', member, rfl, rfl, .inl⟩

/-- A claim stays, or goes with its transaction, or is purged. -/
theorem Steps.image (taken : s.Steps a s') (member : v ∈ s.claims) :
    (∃ v' ∈ s'.claims, v'.row = v.row ∧ v'.writer = v.writer ∧
      (v.committed = true → v'.committed = true)) ∨
    (v.committed = false ∧ s'.sessions v.writer = some .rolledBack) ∨
    (∃ olderThan, a = .purge olderThan) ∧
      ∃ events, s'.trace = s.trace ++ events ∧ InboxEvent.purged v.row ∈ events := by
  have rolled {tx} (after : s'.claims = Transactions.rollback tx s.claims)
      (ended : s'.sessions tx = some .rolledBack) :
      (∃ v' ∈ s'.claims, v'.row = v.row ∧ v'.writer = v.writer ∧
        (v.committed = true → v'.committed = true)) ∨
      (v.committed = false ∧ s'.sessions v.writer = some .rolledBack) := by
    by_cases lost : v.writer = tx ∧ v.committed = false
    · exact .inr ⟨lost.2, lost.1 ▸ ended⟩
    · refine .inl ⟨v.discard tx, ?_, rfl, rfl, id⟩
      rw [after]
      refine mem_rollback.mpr ⟨v, member, fun own => ?_, rfl⟩
      simpa using fun open_ => lost ⟨own, open_⟩
  have kept (same : s'.claims = s.claims) : ∃ v' ∈ s'.claims, v'.row = v.row ∧
      v'.writer = v.writer ∧ (v.committed = true → v'.committed = true) :=
    ⟨v, same.symm ▸ member, rfl, rfl, id⟩
  cases taken with
  | insertFault => exact (rolled rfl (by simp [log_sessions, abort_sessions])).imp_right .inl
  | readFault => exact (rolled rfl (by simp [log_sessions, abort_sessions])).imp_right .inl
  | rollback => exact (rolled rfl (by simp [abort_sessions])).imp_right .inl
  | claimed => exact .inl ⟨v, List.mem_append_left _ member, rfl, rfl, id⟩
  | marked _ updated =>
    obtain ⟨v', inside, same, writer, committed⟩ := update_keeps updated member
    exact .inl ⟨v', inside, same, writer, fun done => committed.trans done⟩
  | commit =>
    refine .inl ⟨_, mem_commit.mpr ⟨v, member, rfl⟩, rfl, rfl, fun done => ?_⟩
    simp [Version.settle, Version.visible, done]
  | @purged olderThan gone =>
    cases old : gone v with
    | false => exact .inl ⟨v, mem_deleteWhere.mpr ⟨member, old⟩, rfl, rfl, id⟩
    | true =>
      refine .inr (.inr ⟨⟨olderThan, rfl⟩, _, rfl, ?_⟩)
      exact List.mem_map.mpr ⟨v, List.mem_filter.mpr ⟨member, old⟩, rfl⟩
  | _ => exact .inl (kept rfl)

/-- A `begin` between its statements either just lost its insert to a claim it can see,
or was there before, and then nothing of its transaction ran. -/
theorem Steps.reading (taken : s.Steps a s')
    (reading : s'.sessions tx = some (.active startedAt (some (consumer, envelope)))) :
    (s'.trace = s.trace ++ [.conflicted tx consumer envelope] ∧ s'.claims = s.claims ∧
      ∃ v ∈ s.claims, v.row.key = (consumer, envelope.messageId) ∧ v.visible tx = true) ∨
    (s.sessions tx = some (.active startedAt (some (consumer, envelope))) ∧
      ∃ events, s'.trace = s.trace ++ events ∧
        ∀ c e result, InboxEvent.returned tx c e result ∉ events) := by
  have elsewhere {tx'} {session : Session T}
      (ended : ∀ t r, session ≠ .active t (some r))
      (after : (if tx = tx' then some session else s.sessions tx) =
        some (.active startedAt (some (consumer, envelope)))) :
      tx ≠ tx' ∧ s.sessions tx = some (.active startedAt (some (consumer, envelope))) := by
    split at after
    · exact absurd (Option.some.inj after) (ended _ _)
    · rename_i different
      exact ⟨different, after⟩
  have idle {tx' t} (active : s.sessions tx' = some (.active t none))
      (before : s.sessions tx = some (.active startedAt (some (consumer, envelope)))) :
      tx ≠ tx' := by
    rintro rfl
    cases active.symm.trans before
  cases taken with
  | start =>
    obtain ⟨_, before⟩ := elsewhere (by simp) (withSession_sessions _ ▸ reading)
    exact .inr ⟨before, [], (List.append_nil _).symm, by simp⟩
  | blank active => exact .inr ⟨reading, _, rfl, by simp [idle active reading]⟩
  | insertFault =>
    obtain ⟨different, before⟩ := elsewhere (by simp) (abort_sessions ▸ reading)
    exact .inr ⟨before, _, rfl, by simp [different]⟩
  | claimed active => exact .inr ⟨reading, _, rfl, by simp [idle active reading]⟩
  | @conflicted tx' c e t active found =>
    rw [log_sessions, withSession_sessions] at reading
    split at reading
    · rename_i same
      cases reading
      exact .inl ⟨same ▸ rfl, rfl, same ▸ found⟩
    · exact .inr ⟨reading, _, rfl, by simp⟩
  | readFault =>
    obtain ⟨different, before⟩ := elsewhere (by simp) (abort_sessions ▸ reading)
    exact .inr ⟨before, _, rfl, by simp [different]⟩
  | answered =>
    obtain ⟨different, before⟩ := elsewhere (by simp) (withSession_sessions _ ▸ reading)
    exact .inr ⟨before, _, rfl, by simp [different]⟩
  | commit =>
    obtain ⟨_, before⟩ := elsewhere (by simp) (withSession_sessions _ ▸ reading)
    exact .inr ⟨before, _, rfl, by simp⟩
  | rollback =>
    obtain ⟨_, before⟩ := elsewhere (by simp) (abort_sessions ▸ reading)
    exact .inr ⟨before, [], (List.append_nil _).symm, by simp⟩
  | purged => exact .inr ⟨reading, _, rfl, by simp⟩
  | _ => exact .inr ⟨reading, [], (List.append_nil _).symm, by simp⟩

theorem Steps.rolledBack (taken : s.Steps a s') (ended : s.sessions tx = some .rolledBack) :
    s'.sessions tx = some .rolledBack := by
  have other {tx' before session} (open_ : s.sessions tx' = before)
      (live : before ≠ some .rolledBack) :
      (if tx = tx' then some session else s.sessions tx) = some .rolledBack := by
    rw [if_neg ?_, ended]
    rintro rfl
    exact live (open_.symm.trans ended)
  cases taken with
  | start fresh => exact (withSession_sessions _).trans (other fresh (by simp))
  | insertFault active => exact (abort_sessions).trans (other active (by simp))
  | conflicted active => exact (withSession_sessions _).trans (other active (by simp))
  | readFault active => exact (abort_sessions).trans (other active (by simp))
  | answered active => exact (withSession_sessions _).trans (other active (by simp))
  | commit active => exact (withSession_sessions _).trans (other active (by simp))
  | rollback active => exact (abort_sessions).trans (other active (by simp))
  | _ => exact ended

/-- `Process` is only ever the answer to an insert that claimed the key. -/
theorem Steps.processed (taken : s.Steps a s')
    (member : .returned tx consumer envelope (.ok .process) ∈ s'.trace) :
    .returned tx consumer envelope (.ok .process) ∈ s.trace ∨
      a = .beginInsert tx consumer envelope none ∧
        ∃ v ∈ s'.claims, v.row.key = (consumer, envelope.messageId) ∧ v.writer = tx := by
  have appended {events : List (InboxEvent T)}
      (member : .returned tx consumer envelope (.ok .process) ∈ s.trace ++ events)
      (silent : .returned tx consumer envelope (.ok .process) ∉ events) :
      .returned tx consumer envelope (.ok .process) ∈ s.trace :=
    (List.mem_append.mp member).resolve_right silent
  cases taken with
  | claimed _ made _ =>
    rcases List.mem_append.mp member with old | new
    · exact .inl old
    · obtain ⟨rfl, rfl, rfl⟩ := by simpa using new
      exact .inr ⟨rfl, _, List.mem_append_right _ (List.mem_singleton.mpr rfl), by rw [made]; rfl,
        rfl⟩
  | answered =>
    refine .inl (appended member ?_)
    rw [List.mem_singleton, InboxEvent.returned.injEq]
    rintro ⟨_, _, _, answer⟩
    unfold decideConflictingClaim at answer
    split at answer
    · split at answer <;> cases answer
    · cases answer
  | blank => exact .inl (appended member (by simp))
  | insertFault => exact .inl (appended member (by simp))
  | conflicted => exact .inl (appended member (by simp))
  | readFault => exact .inl (appended member (by simp))
  | commit => exact .inl (appended member (by simp))
  | purged => exact .inl (appended member (by simp))
  | _ => exact .inl member

theorem Steps.unique (taken : s.Steps a s') (unique : Unique Claim.key s.claims) :
    Unique Claim.key s'.claims := by
  cases taken with
  | insertFault => exact unique.rollback
  | claimed _ _ fresh => exact unique.append fresh
  | readFault => exact unique.rollback
  | marked _ updated => exact unique.update updated
  | commit => exact unique.commit
  | rollback => exact unique.rollback
  | purged => exact unique.deleteWhere _
  | _ => exact unique

end PgInbox

end FiduciaMessaging
