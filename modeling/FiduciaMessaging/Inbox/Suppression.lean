import FiduciaMessaging.Inbox.Steps

/-! When `begin` answers `Duplicate`. A claim of another tenant that can be read
back is refused; the retention purge can delete it between the two statements,
and then the answer is the at-most-once one. -/
namespace FiduciaMessaging

open Transactions Runs

variable {T : Type} {s s' : PgInbox T} {a : InboxAction T} {tx : Nat} {consumer : String}
  {envelope : MessageEnvelope T} {trace events : List (InboxEvent T)}

/- A claim of the envelope's own tenant, committed unless it is the transaction's own. -/
def OwnClaim (trace : List (InboxEvent T)) (tx : Nat) (consumer : String)
    (envelope : MessageEnvelope T) : Prop :=
  ∃ claimer claim, .claimed claimer claim ∈ trace ∧
    claim.key = (consumer, envelope.messageId) ∧
    claim.tenantId = envelope.tenantId ∧ (claimer = tx ∨ .committed claimer ∈ trace)

/- `since` is what happened after the insert the open `begin` of `tx` lost. -/
def LostInsert (trace : List (InboxEvent T)) (tx : Nat) (consumer : String)
    (envelope : MessageEnvelope T) (since : List (InboxEvent T)) : Prop :=
  (∃ front, trace = front ++ .conflicted tx consumer envelope :: since) ∧
    ∀ c e result, .returned tx c e result ∉ since

/- A purge deleted a claim of the key between the two statements of the open `begin`. -/
def PurgedMeanwhile (trace : List (InboxEvent T)) (tx : Nat) (consumer : String)
    (envelope : MessageEnvelope T) : Prop :=
  ∃ since claim, LostInsert trace tx consumer envelope since ∧ .purged claim ∈ since ∧
    claim.key = (consumer, envelope.messageId)

theorem LostInsert.grow {since : List (InboxEvent T)}
    (lost : LostInsert trace tx consumer envelope since)
    (others : ∀ c e result, .returned tx c e result ∉ events) :
    LostInsert (trace ++ events) tx consumer envelope (since ++ events) := by
  obtain ⟨⟨front, rfl⟩, quiet⟩ := lost
  refine ⟨⟨front, by simp⟩, ?_⟩
  intro c e result member
  rcases List.mem_append.mp member with old | new
  · exact quiet c e result old
  · exact others c e result new

structure Recorded (s : PgInbox T) : Prop where
  claimed : ∀ v ∈ s.claims, .claimed v.writer v.row ∈ s.trace
  committed : ∀ v ∈ s.claims, v.committed = true → .committed v.writer ∈ s.trace
  reading : ∀ tx startedAt consumer (envelope : MessageEnvelope T),
    s.sessions tx = some (.active startedAt (some (consumer, envelope))) →
    ∃ since, LostInsert s.trace tx consumer envelope since ∧
      ((∃ v ∈ s.claims, v.row.key = (consumer, envelope.messageId) ∧ v.visible tx = true) ∨
        ∃ claim, .purged claim ∈ since ∧ claim.key = (consumer, envelope.messageId))
  answered : ∀ before after tx consumer (envelope : MessageEnvelope T),
    s.trace = before ++ .returned tx consumer envelope (.ok .duplicate) :: after →
    OwnClaim before tx consumer envelope ∨ PurgedMeanwhile before tx consumer envelope

theorem recorded_initial (now : Timestamp) : Recorded (.initial T now) where
  claimed := by
    intro v member
    cases member
  committed := by
    intro v member
    cases member
  reading := by
    intro tx startedAt consumer envelope reading
    cases reading
  answered := by
    intro before after tx consumer envelope split
    exact absurd split (by simp [PgInbox.initial])

theorem findById_some {key : String × Uuid} {claim : Claim}
    (found : s.findById tx key = some claim) :
    ∃ v ∈ s.claims, v.row = claim ∧ v.visible tx = true ∧ claim.key = key := by
  obtain ⟨v, first, rfl⟩ := Option.map_eq_some_iff.mp found
  have matched := List.find?_some first
  simp only [Version.matched, Bool.and_eq_true, beq_iff_eq] at matched
  exact ⟨v, List.mem_of_find?_eq_some first, rfl, matched.1, matched.2⟩

theorem findById_none {key : String × Uuid} (missing : s.findById tx key = none)
    {v : Version Claim (Option Timestamp) Nat} (inside : v ∈ s.claims) (same : v.row.key = key)
    (seen : v.visible tx = true) : False := by
  have unmatched := List.find?_eq_none.mp (Option.map_eq_none_iff.mp missing) v inside
  simp [Version.matched, same, seen] at unmatched

theorem decideConflictingClaim_duplicate {existing : Option (Option Uuid)} {messageId : Uuid}
    {tenant : Option Uuid} :
    decideConflictingClaim existing messageId tenant = .ok .duplicate ↔
      existing = none ∨ existing = some tenant := by
  unfold decideConflictingClaim
  cases existing with
  | none => simp
  | some claimedBy =>
    by_cases same : claimedBy = tenant <;> simp [same]

/-- Only a read-back answers `Duplicate`. -/
theorem duplicate_step (taken : s.Steps a s') (grown : s'.trace = s.trace ++ events)
    (member : .returned tx consumer envelope (.ok .duplicate) ∈ events) :
    ∃ startedAt, s.sessions tx = some (.active startedAt (some (consumer, envelope))) ∧
      events = [.returned tx consumer envelope (.ok .duplicate)] ∧
      decideConflictingClaim ((s.findById tx (consumer, envelope.messageId)).map (·.tenantId))
        envelope.messageId envelope.tenantId = .ok .duplicate := by
  have appended {new : List (InboxEvent T)} (same : s'.trace = s.trace ++ new) : events = new :=
    List.append_cancel_left (grown.symm.trans same)
  cases taken with
  | answered reading =>
    rw [appended rfl] at member ⊢
    obtain ⟨rfl, rfl, rfl, answer⟩ := InboxEvent.returned.inj (List.mem_singleton.mp member)
    exact ⟨_, reading, by rw [answer], answer.symm⟩
  | blank => simp [appended rfl] at member
  | insertFault => simp [appended rfl] at member
  | claimed => simp [appended rfl] at member
  | conflicted => simp [appended rfl] at member
  | readFault => simp [appended rfl] at member
  | commit => simp [appended rfl] at member
  | purged => simp [appended rfl] at member
  | _ => simp [appended (List.append_nil _).symm] at member

theorem duplicate_justified (recorded : Recorded s) (taken : s.Steps a s')
    (grown : s'.trace = s.trace ++ events)
    (member : .returned tx consumer envelope (.ok .duplicate) ∈ events) :
    OwnClaim s.trace tx consumer envelope ∨ PurgedMeanwhile s.trace tx consumer envelope := by
  obtain ⟨startedAt, reading, _, answer⟩ := duplicate_step taken grown member
  rcases decideConflictingClaim_duplicate.mp answer with vanished | own
  · obtain ⟨since, lost, ⟨v, inside, same, seen⟩ | ⟨claim, purged, same⟩⟩ :=
      recorded.reading tx startedAt consumer envelope reading
    · exact absurd seen (fun seen =>
        findById_none (Option.map_eq_none_iff.mp vanished) inside same seen)
    · exact .inr ⟨since, claim, lost, purged, same⟩
  · obtain ⟨claim, found, tenant⟩ := Option.map_eq_some_iff.mp own
    obtain ⟨v, inside, rfl, seen, same⟩ := findById_some found
    refine .inl ⟨v.writer, v.row, recorded.claimed v inside, same, tenant, ?_⟩
    rcases Bool.or_eq_true_iff.mp seen with committed | writer
    · exact .inr (recorded.committed v inside committed)
    · exact .inl (eq_of_beq writer)

theorem trace_grows (taken : s.Steps a s') : ∃ events, s'.trace = s.trace ++ events := by
  cases taken with
  | start => exact ⟨[], (List.append_nil _).symm⟩
  | marked => exact ⟨[], (List.append_nil _).symm⟩
  | rollback => exact ⟨[], (List.append_nil _).symm⟩
  | unpurged => exact ⟨[], (List.append_nil _).symm⟩
  | tick => exact ⟨[], (List.append_nil _).symm⟩
  | _ => exact ⟨_, rfl⟩

theorem recorded_step (recorded : Recorded s) (taken : s.Steps a s') : Recorded s' where
  claimed := by
    intro v' member
    obtain ⟨events, grown⟩ := trace_grows taken
    obtain ⟨v, inside, same, writer, _⟩ | ⟨logged, _⟩ := taken.origin member
    · rw [same, writer, grown]
      exact List.mem_append_left _ (recorded.claimed v inside)
    · exact logged
  committed := by
    intro v' member done
    obtain ⟨events, grown⟩ := trace_grows taken
    obtain ⟨v, inside, _, writer, before⟩ | ⟨_, uncommitted⟩ := taken.origin member
    · rw [writer]
      rcases before done with already | now
      · rw [grown]
        exact List.mem_append_left _ (recorded.committed v inside already)
      · exact now
    · rw [uncommitted] at done
      contradiction
  reading := by
    intro tx startedAt consumer envelope reading
    obtain ⟨lost, same, found⟩ | ⟨before, events, grown, others⟩ := taken.reading reading
    · exact ⟨[], ⟨⟨s.trace, lost⟩, by simp⟩, .inl (same ▸ found)⟩
    · obtain ⟨since, open_, holder⟩ := recorded.reading tx startedAt consumer envelope before
      refine ⟨since ++ events, grown ▸ open_.grow others, ?_⟩
      rcases holder with ⟨v, inside, same, seen⟩ | ⟨claim, purged, same⟩
      · obtain ⟨v', inside', row, writer, kept⟩ | ⟨uncommitted, ended⟩ |
            ⟨_, new, grown', gone⟩ :=
          taken.image inside
        · refine .inl ⟨v', inside', row ▸ same, ?_⟩
          rcases Bool.or_eq_true_iff.mp seen with committed | own
          · simp [Version.visible, kept committed]
          · simp [Version.visible, writer, eq_of_beq own]
        · have own : v.writer = tx := by simpa [Version.visible, uncommitted] using seen
          rw [own, reading] at ended
          cases ended
        · rw [List.append_cancel_left (grown'.symm.trans grown)] at gone
          exact .inr ⟨v.row, List.mem_append_right _ gone, same⟩
      · exact .inr ⟨claim, List.mem_append_left _ purged, same⟩
  answered := by
    intro before after tx consumer envelope split
    obtain ⟨events, grown⟩ := trace_grows taken
    obtain ⟨rest, old⟩ | ⟨mid, rfl, new⟩ := trace_split (grown.symm.trans split)
    · exact recorded.answered before rest tx consumer envelope old
    · have member : .returned tx consumer envelope (.ok .duplicate) ∈ events := by
        rw [new]
        exact List.mem_append_right _ List.mem_cons_self
      obtain ⟨_, _, single, _⟩ := duplicate_step taken grown member
      obtain rfl : mid = [] := by
        rw [single] at new
        cases mid with
        | nil => rfl
        | cons x mid => simp at new
      rw [List.append_nil]
      exact duplicate_justified recorded taken grown member

/-- In every interleaving an answer of `Duplicate` follows a claim of the envelope's own
tenant, or a purge of the key's claim between the two statements of that `begin`. -/
theorem duplicate_own_or_purged {now : Timestamp} {before after : List (InboxEvent T)}
    (reached : Reaches PgInbox.step (fun _ _ => True) (.initial T now) s)
    (split : s.trace = before ++ .returned tx consumer envelope (.ok .duplicate) :: after) :
    OwnClaim before tx consumer envelope ∨ PurgedMeanwhile before tx consumer envelope := by
  have recorded := reached.invariant Recorded (recorded_initial now)
    (fun _ _ _ before _ taken => recorded_step before (PgInbox.steps_of_step taken))
  exact recorded.answered before after tx consumer envelope split

section Sample

open Sample

/- Tenant 1 processes the message; tenant 2's `begin` loses its insert to that claim,
which the purge deletes before the read-back. -/
def suppressedRun : List (InboxAction Unit) :=
  [.start 1, .beginInsert 1 "billing" (tenantOrder 1) none,
    .markProcessed 1 "billing" 42, .commit 1,
    .tick 2000, .start 2, .beginInsert 2 "billing" (tenantOrder 2) none,
    .purge (Duration.fromMillis 1), .beginReadBack 2 none]

def suppressedTrace : List (InboxEvent Unit) :=
  [.claimed 1 ⟨"billing", 42, some 1, 0⟩, .returned 1 "billing" (tenantOrder 1) (.ok .process),
    .committed 1, .conflicted 2 "billing" (tenantOrder 2), .purged ⟨"billing", 42, some 1, 0⟩]

theorem foreign_claim_suppresses :
    ∃ s, Reaches PgInbox.step (fun _ _ => True) (.initial Unit 0) s ∧
    s.trace = suppressedTrace ++ [.returned 2 "billing" (tenantOrder 2) (.ok .duplicate)] ∧
    ¬ OwnClaim suppressedTrace 2 "billing" (tenantOrder 2) := by
  have ends : (run PgInbox.step (.initial Unit 0) suppressedRun).map (·.trace) =
      some (suppressedTrace ++ [.returned 2 "billing" (tenantOrder 2) (.ok .duplicate)]) := by
    decide +kernel
  obtain ⟨s, taken, trace⟩ := Option.map_eq_some_iff.mp ends
  refine ⟨s, reaches_of_run _ _ taken (fun _ _ _ => trivial), trace, ?_⟩
  rintro ⟨claimer, claim, claimed, _, tenant, _⟩
  have foreign : claim.tenantId = some 1 := by
    simp only [suppressedTrace, List.mem_cons, InboxEvent.claimed.injEq, reduceCtorEq, or_false,
      List.not_mem_nil] at claimed
    rw [claimed.2]
  rw [foreign] at tenant
  exact absurd tenant (by decide)

/- A redelivery of tenant 1's own message. -/
def redeliveredRun : List (InboxAction Unit) :=
  [.start 1, .beginInsert 1 "billing" (tenantOrder 1) none, .commit 1, .start 2,
    .beginInsert 2 "billing" (tenantOrder 1) none, .beginReadBack 2 none]

def redeliveredTrace : List (InboxEvent Unit) :=
  [.claimed 1 ⟨"billing", 42, some 1, 0⟩, .returned 1 "billing" (tenantOrder 1) (.ok .process),
    .committed 1, .conflicted 2 "billing" (tenantOrder 1)]

theorem duplicate_own_or_purged_redelivered :
    OwnClaim redeliveredTrace 2 "billing" (tenantOrder 1) ∨
      PurgedMeanwhile redeliveredTrace 2 "billing" (tenantOrder 1) := by
  have ends : (run PgInbox.step (.initial Unit 0) redeliveredRun).map (·.trace) =
      some (redeliveredTrace ++ [.returned 2 "billing" (tenantOrder 1) (.ok .duplicate)]) := by
    decide +kernel
  obtain ⟨s, taken, trace⟩ := Option.map_eq_some_iff.mp ends
  exact duplicate_own_or_purged (reaches_of_run _ _ taken (fun _ _ _ => trivial)) trace

end Sample

end FiduciaMessaging
