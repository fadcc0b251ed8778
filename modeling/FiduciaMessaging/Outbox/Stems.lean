import FiduciaMessaging.Outbox.Delivery

/-! Where rows and messages come from. What holds of every accepted record holds of every
row, of every record a batch holds and behind every message, purged or not. -/
namespace FiduciaMessaging

open Runs

variable {s s' : System} {a : Action} {P Q : Staged → Prop}

/- Rows, records in batches and messages stem from staged values with the property. -/
structure Stems [External] (P : Staged → Prop) (s : System) : Prop where
  rows : ∀ row ∈ s.table, P row.toStaged
  held : ∀ o b, s.batches o = some b → ∀ record ∈ b.phase.held, P record.toStaged
  offers : ∀ o b, s.batches o = some b → ∀ bytes record rest n,
    b.phase = .offer bytes record rest n → External.toVec record.payload = .ok bytes
  sent : ∀ message ∈ s.sent, ∃ staged, P staged ∧ message.Copies staged
  logged : ∀ entry ∈ s.log, entry.message ∈ s.sent

section Stems

variable [External]

theorem stems_initial (now : Timestamp) : Stems P (.initial now) where
  rows := by
    intro row member
    cases member
  held := by
    intro o b known
    cases known
  offers := by
    intro o b known
    cases known
  sent := by
    intro message member
    cases member
  logged := by
    intro entry member
    cases member

/-- A step keeps what the staged values have, if what it accepts has it. -/
theorem stems_step (tracked : Tracked s) (stems : Stems P s)
    (keeps : ∀ staged, P staged → Q staged)
    (accepts : ∀ record startedAt, a = .enqueue record startedAt → record.validate = .ok () →
      record.row startedAt ∈ s'.table → Q record.toStaged)
    (taken : s.step a = some s') : Stems Q s' where
  rows := by
    intro row member
    obtain ⟨old, inside, moved⟩ | ⟨record, startedAt, enqueued, rfl, valid, _⟩ :=
      row_origin tracked.apart taken member
    · rw [moved.toStaged]
      exact keeps _ (stems.rows old inside)
    · exact accepts record startedAt enqueued valid member
  held := by
    intro o b known record held
    cases before : s.batches o with
    | none =>
      obtain ⟨_, _, _, _, _, ⟨e, ended, _⟩ | ⟨_, _, _, spec, start⟩⟩ :=
        step_new_batch taken before known
      · rw [ended] at held
        cases held
      · rw [start, loop_held] at held
        obtain ⟨r, picked, rfl⟩ := spec.returned held
        exact keeps _ (stems.rows r (spec.due r picked).1)
    | some earlier =>
      obtain ⟨_, _, moved⟩ := step_batch taken before known
      rcases moved with ⟨_, rfl⟩ | moved
      · exact keeps _ (stems.held o _ before record held)
      · exact keeps _ (stems.held o earlier before record (moved.held.subset held))
  offers := by
    intro o b known bytes record rest n phase
    cases before : s.batches o with
    | none =>
      obtain ⟨_, start⟩ | ⟨_, _, start⟩ := step_new_phase taken before known <;>
        cases start.symm.trans phase
    | some earlier =>
      obtain ⟨_, _, moved⟩ := step_batch taken before known
      rcases moved with ⟨_, rfl⟩ | moved
      · exact stems.offers o _ before bytes record rest n phase
      · rw [phase] at moved
        exact prepare_bytes moved.offer.2.1
  sent := by
    intro message member
    rcases step_sent taken with same | ⟨o, b, bytes, record, rest, n, _, known, phase, grown⟩
    · obtain ⟨staged, has, copies⟩ := stems.sent message (same ▸ member)
      exact ⟨staged, keeps staged has, copies⟩
    · rw [grown] at member
      rcases List.mem_append.mp member with old | new
      · obtain ⟨staged, has, copies⟩ := stems.sent message old
        exact ⟨staged, keeps staged has, copies⟩
      · obtain rfl := List.mem_singleton.mp new
        have held : record ∈ b.phase.held := by
          rw [phase]
          exact List.mem_cons_self
        exact ⟨record.toStaged, keeps _ (stems.held o b known record held), rfl, rfl,
          stems.offers o b known bytes record rest n phase⟩
  logged := by
    intro entry member
    have kept {message : PublishedMessage} (inside : message ∈ s.sent) : message ∈ s'.sent := by
      rcases step_sent taken with same | ⟨_, _, _, _, _, _, _, _, _, grown⟩
      · exact same ▸ inside
      · rw [grown]
        exact List.mem_append_left _ inside
    apply kept
    rcases step_log taken with same | ⟨message, inside, _, grown⟩
    · exact stems.logged entry (same ▸ member)
    · rw [grown] at member
      rcases List.mem_append.mp member with old | new
      · exact stems.logged entry old
      · rw [List.mem_singleton.mp new]
        exact inside

theorem stems_of_reaches {now : Timestamp} {ok : System → Action → Prop}
    (accepts : ∀ x a, ok x a → ∀ record startedAt, a = .enqueue record startedAt →
      record.validate = .ok () → P record.toStaged)
    (reached : Reaches System.step ok (.initial now) s) : Stems P s :=
  reached.invariant_given (Stems P)
    (fun _ before => tracked_of_reaches (tracked_initial now) before) (stems_initial now)
    (fun _ _ _ tracked before allowed taken =>
      stems_step tracked before (fun _ => id)
        (fun record startedAt same valid _ => accepts _ _ allowed record startedAt same valid)
        taken)

end Stems

end FiduciaMessaging
