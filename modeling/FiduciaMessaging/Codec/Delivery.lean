import FiduciaMessaging.Codec.Staging
import FiduciaMessaging.Compat.Envelope
import FiduciaMessaging.Gate
import FiduciaMessaging.Outbox.Stems

/-! From the envelope a producer stages to the bytes the relays publish: every message, of a
purged row too, decodes to a staged envelope. -/
namespace FiduciaMessaging

open Runs

variable {s : System}

/- An envelope on its way to the outbox. -/
structure Letter where
  subject : String
  envelope : MessageEnvelope Value

/- A payload that the readers can follow, without floats. -/
structure Letter.Plain (letter : Letter) : Prop where
  formed : letter.envelope.payload.WellFormed
  integral : letter.envelope.payload.Integral
  shallow : letter.envelope.payload.depth ≤ 126

section Letters

variable [External] [Serde] {letters : Set Letter} {letter : Letter} {now : Timestamp}

/- Producers enqueue what `from_envelope` makes of these letters and nothing else. -/
def Action.StagesFrom (letters : Set Letter) (a : Action) : Prop :=
  ∀ record startedAt, a = .enqueue record startedAt → ∃ letter ∈ letters, ∃ id,
    OutboxRecord.fromEnvelope id letter.subject letter.envelope = .ok record

structure Letter.In (letter : Letter) (staged : Staged) : Prop where
  subject : staged.subject = letter.subject
  dedupId : staged.dedupId =
    tenantScopedDedupId letter.envelope.tenantId letter.envelope.idempotencyKey
  valid : letter.envelope.validate = .ok ()
  payload : staged.payload = .object (stagedFields letter.envelope)

theorem letter_in {record : OutboxRecord} {id : Uuid}
    (staged : OutboxRecord.fromEnvelope id letter.subject letter.envelope = .ok record) :
    letter.In record.toStaged := by
  obtain ⟨valid, payload⟩ := fromEnvelope_value staged
  have form : record.subject = letter.subject ∧ record.dedupId =
      tenantScopedDedupId letter.envelope.tenantId letter.envelope.idempotencyKey := by
    simp only [OutboxRecord.fromEnvelope, bind, Except.bind, pure, Except.pure] at staged
    split at staged
    · contradiction
    · split at staged
      · contradiction
      · rw [← Except.ok.inj staged]
        exact ⟨rfl, rfl⟩
  exact ⟨form.1, form.2, valid, payload⟩

omit [External] in
theorem staged_unversioned (envelope : MessageEnvelope Value) :
    CompatField.name .version ∉ (asTrees (stagedFields envelope)).map Prod.fst := by
  have names : (asTrees (stagedFields envelope)).map Prod.fst =
      (stagedFields envelope).map Prod.fst := by
    simp [asTrees, Function.comp_def]
  rw [names, (stagedFields_perm.map Prod.fst).mem_iff, entries_names]
  intro member
  obtain ⟨field, _, same⟩ := List.mem_map.mp member
  have other : field.name ≠ CompatField.name .version := by cases field <;> decide
  exact other same

/-- The bytes printed for a plain letter decode to its envelope, and to nothing of the compat
format. -/
theorem Letter.In.decodes {staged : Staged} (inside : letter.In staged) (forms : TextForms)
    (texts : TextReads) (plain : letter.Plain) {bytes : List UInt8}
    (printed : External.toVec staged.payload = .ok bytes) :
    MessageEnvelope.decode bytes = .ok letter.envelope ∧ ∀ (U : Type) [PayloadCodec U],
      ∃ error, Envelope.decode (T := U) bytes = .error error := by
  rw [inside.payload] at printed
  have scanned := texts _ bytes (stagedFields_formed plain.formed)
    (stagedFields_integral plain.integral) printed
  exact ⟨decode_represents inside.valid scanned
      (stagedFields_represents forms plain.formed plain.shallow),
    fun U _ => compat_decode_requires_version scanned (staged_unversioned letter.envelope)⟩

/-- The driver can read the column of a plain letter's row. -/
theorem Letter.In.reads {staged : Staged} (inside : letter.In staged) (plain : letter.Plain) :
    readColumn staged.payload = .ok staged.payload := by
  have room : letter.envelope.payload.depth + 1 < recursionLimit :=
    Nat.succ_lt_succ (Nat.lt_succ_of_le plain.shallow)
  unfold readColumn
  rw [inside.payload, read_eq _ (stagedFields_formed plain.formed) _ (by decide),
    stagedFields_depth]
  exact if_pos room

/- A consumer that decodes the message and asks the gate goes on with the token. -/
def PublishedMessage.Drives (message : PublishedMessage) (at_ : Timestamp) (requireFencing : Bool)
    (token : Option UInt64) : Prop :=
  ∃ envelope : MessageEnvelope Value, MessageEnvelope.decode message.payload = .ok envelope ∧
    envelope.ensureConsumable at_ requireFencing = .ok token

omit [External] in
theorem drives_iff {message : PublishedMessage}
    (decoded : MessageEnvelope.decode message.payload = .ok letter.envelope) {at_ : Timestamp}
    {requireFencing : Bool} {token : Option UInt64} : message.Drives at_ requireFencing token ↔
      letter.envelope.isExpired at_ = false ∧
        letter.envelope.Authorizes requireFencing token := by
  constructor
  · rintro ⟨envelope, read, opened⟩
    obtain rfl := Except.ok.inj (decoded.symm.trans read)
    exact ensureConsumable_ok.mp opened
  · intro opens
    exact ⟨letter.envelope, decoded, ensureConsumable_ok.mpr opens⟩

/-- In every run of producers that stage plain letters, relays and purges: every row can be read
back, and every message, sent or stored, carries the subject and the dedup id of a staged letter
and decodes to its envelope. A consumer goes on with it before the staged deadline only, with the
staged token. The compat reader rejects it, whatever payload it expects. -/
theorem relays_deliver_what_was_staged (forms : TextForms) (texts : TextReads)
    (plain : ∀ letter ∈ letters, letter.Plain)
    (reached : Reaches System.step (fun _ a => a.StagesFrom letters) (.initial now) s) :
    (∀ row ∈ s.table, readColumn row.payload = .ok row.payload) ∧
    (∀ entry ∈ s.log, entry.message ∈ s.sent) ∧
    ∀ message ∈ s.sent, ∃ letter ∈ letters, message.subject = letter.subject ∧
      message.dedupId =
        tenantScopedDedupId letter.envelope.tenantId letter.envelope.idempotencyKey ∧
      MessageEnvelope.decode message.payload = .ok letter.envelope ∧
      (∀ at_ requireFencing token, message.Drives at_ requireFencing token ↔
        letter.envelope.isExpired at_ = false ∧
          letter.envelope.Authorizes requireFencing token) ∧
      ∀ (U : Type) [PayloadCodec U],
        ∃ error, Envelope.decode (T := U) message.payload = .error error := by
  have stems : Stems (fun staged => ∃ letter ∈ letters, letter.In staged) s := by
    refine stems_of_reaches ?_ reached
    intro x a staged record startedAt enqueued _
    obtain ⟨letter, mine, id, made⟩ := staged record startedAt enqueued
    exact ⟨letter, mine, letter_in made⟩
  refine ⟨?_, stems.logged, ?_⟩
  · intro row inside
    obtain ⟨letter, mine, held⟩ := stems.rows row inside
    exact held.reads (plain letter mine)
  · intro message sent
    obtain ⟨staged, ⟨letter, mine, held⟩, subject, dedupId, printed⟩ :=
      stems.sent message sent
    obtain ⟨decoded, refused⟩ := held.decodes forms texts (plain letter mine) printed
    exact ⟨letter, mine, subject.trans held.subject, dedupId.trans held.dedupId, decoded,
      fun _ _ _ => drives_iff decoded, refused⟩

end Letters

namespace Sample

attribute [local instance] flatWriter flatSerde

def flatLetter : Letter := ⟨"fiducia.claims.created.v1", nestedClaim 0⟩

/- The row is published, purged and staged again; its second relay dies after the publish. -/
def flatRun : List Action :=
  [.enqueue flatRecord 0, .claim 7 .new plan .ok, .database 7 .ok 0, .publish 7,
    .append (flatRecord.message flatBytes), .answer 7 (.ok ()), .database 7 .ok 0,
    .tick 5000000, .purge (Duration.fromSecs 1), .enqueue flatRecord 0, .claim 8 .new plan .ok,
    .database 8 .ok 0, .publish 8, .crash 8]

theorem relays_deliver_flat : ∃ s : System, run System.step (.initial 0) flatRun = some s ∧
    s.sent.length = 2 ∧ s.log.length = 1 ∧ s.table.length = 1 ∧
    (∀ row ∈ s.table, readColumn row.payload = .ok row.payload) ∧
    ∀ message ∈ s.sent, MessageEnvelope.decode message.payload = .ok (nestedClaim 0) ∧
      ∀ at_, message.Drives at_ false none := by
  have ends : (run System.step (.initial 0) flatRun).map
      (fun s => (s.sent.length, s.log.length, s.table.length)) = some (2, 1, 1) := by decide +kernel
  obtain ⟨s, made, lengths⟩ := Option.map_eq_some_iff.mp ends
  obtain ⟨sent, rest⟩ := Prod.mk.inj lengths
  obtain ⟨logged, rows⟩ := Prod.mk.inj rest
  have plain : ∀ letter ∈ ({flatLetter} : Set Letter), letter.Plain := by
    rintro letter rfl
    exact ⟨(nested_plain 0).1, (nested_plain 0).2, by decide⟩
  have staged : ∀ a ∈ flatRun, a.StagesFrom {flatLetter} := by
    intro a member record startedAt same
    subst same
    have made : record = flatRecord := by
      simp only [flatRun, List.mem_cons, List.not_mem_nil, reduceCtorEq, or_false, false_or,
        Action.enqueue.injEq] at member
      rcases member with ⟨same, _⟩ | ⟨same, _⟩ <;> exact same
    exact ⟨flatLetter, rfl, 1, made ▸ rfl⟩
  obtain ⟨reads, _, delivered⟩ := relays_deliver_what_was_staged ⟨uuidOf_text, timeOf_text⟩
    flat_texts plain (reaches_of_run _ _ made (fun _ a member => staged a member))
  refine ⟨s, made, sent, logged, rows, reads, ?_⟩
  intro message member
  obtain ⟨letter, mine, _, _, decoded, drives, _⟩ := delivered message member
  cases mine
  exact ⟨decoded, fun at_ => (drives at_ false none).mpr ⟨rfl, rfl⟩⟩

end Sample

end FiduciaMessaging
