import FiduciaMessaging.Compat.Envelope
import FiduciaMessaging.Compat.Once

/-! From the envelope a producer stages to the bytes a consumer reads. However the workers
overlap, fail or crash, what reaches the broker decodes to the envelope staged under its id. -/
namespace FiduciaMessaging

open Runs

/- An envelope on its way to the outbox. Producers need not agree on a payload type. -/
structure CompatLetter where
  Payload : Type
  codec : PayloadCodec Payload
  subject : String
  envelope : Envelope Payload

attribute [instance] CompatLetter.codec

section Delivery

variable [External] [Serde] {letters : Set CompatLetter} {letter : CompatLetter}
  {s s' : CompatSystem} {a : CompatAction} {h h' : CompatHistory} {row : CompatRow}
  {handed : Handed} {now : Timestamp}

/-- `Outbox::enqueue` of the envelope. -/
def CompatLetter.enqueue (letter : CompatLetter) : CompatAction :=
  .enqueue letter.subject letter.envelope.messageId letter.envelope.tenantId letter.envelope.encode

/- Producers stage these letters and no others. -/
def CompatAction.StagesFrom (letters : Set CompatLetter) (a : CompatAction) : Prop :=
  ∀ subject messageId tenantId encoded, a = .enqueue subject messageId tenantId encoded →
    ∃ letter ∈ letters, a = letter.enqueue

/- The payload and the printed text read back as what was written. -/
structure CompatLetter.Legible (letter : CompatLetter) : Prop where
  payload : ∀ field, PayloadCodec.write letter.envelope.payload = .ok field →
    PayloadCodec.read field = .ok letter.envelope.payload
  text : ∀ fields, letter.envelope.fields = .ok fields → ReadsBack fields

structure CompatLetter.In (letter : CompatLetter) (row : CompatRow) : Prop where
  id : row.messageId = letter.envelope.messageId
  tenant : row.tenantId = letter.envelope.tenantId
  subject : row.subject = letter.subject
  envelope : letter.envelope.encode = .ok row.envelope

def CompatSystem.Holds (letters : Set CompatLetter) (s : CompatSystem) : Prop :=
  ∀ row ∈ s.table.rows, ∃ letter ∈ letters, letter.In row

/- What any worker handed to the broker, in a batch that is over or still open. -/
def CompatSystem.HandedOver (s : CompatSystem) (handed : Handed) : Prop :=
  (∃ e ∈ s.ended, handed ∈ e.log) ∨
    ∃ w session, s.sessions w = some session ∧ handed ∈ session.log

omit [External] in
theorem CompatLetter.In.same {row' : CompatRow} (inside : letter.In row) (same : row.Same row') :
    letter.In row' where
  id := same.id.trans inside.id
  tenant := same.tenant.trans inside.tenant
  subject := same.subject.trans inside.subject
  envelope := same.envelope ▸ inside.envelope

omit [Serde] in
/-- A batch that ends leaves no row that was not there before it. -/
theorem turn_origin (turn : CompatTurn h h') (over_ : h'.ended ≠ h.ended)
    (inside : row ∈ h'.table.rows) : ∃ old ∈ h.table.rows, old.Same row := by
  rcases turn_cases turn with ⟨same, _⟩ | ⟨e, _, ⟨_, after⟩ | batch, _⟩
  · exact absurd same over_
  · exact ⟨row, after ▸ inside, rfl, rfl, rfl, rfl⟩
  · obtain ⟨_, _, writes, _, _, _, _, _, after⟩ := batch
    obtain ⟨old, here, version⟩ := mem_install.mp (after ▸ inside)
    obtain ⟨new, inside', same⟩ := turn_keeps turn here
    have id : new.messageId = row.messageId := by rw [same.id, ← version, written_id]
    obtain rfl := h'.table.same_id inside' inside id
    exact ⟨old, here, same⟩

omit [External] [Serde] in
theorem rollback_ended {worker : Nat} {session : CompatSession} {error : String} :
    (s.rollback worker session error).ended ≠ s.ended := by
  simp [CompatSystem.rollback, CompatSystem.close]

omit [Serde] in
/-- Only a producer adds rows, and only the end of a batch changes them. -/
theorem compat_step_table (taken : s.step a = some s') (open_ : s'.ended = s.ended) :
    s'.table = s.table ∨ ∃ subject messageId tenantId encoded,
      a = .enqueue subject messageId tenantId encoded := by
  cases a with
  | enqueue subject messageId tenantId encoded => exact .inr ⟨_, _, _, _, rfl⟩
  | begin_ worker publisher fails =>
    simp only [CompatSystem.step] at taken
    split at taken <;> first | contradiction | exact .inl (Option.some.inj taken ▸ rfl)
  | claim worker plan fails =>
    left
    simp only [CompatSystem.step] at taken
    split at taken
    · split at taken
      · unfold CompatSystem.claim at taken
        split at taken
        · exact absurd open_ (Option.some.inj taken ▸ rollback_ended)
        · split at taken
          · exact absurd open_ (Option.some.inj taken ▸ rollback_ended)
          · exact Option.some.inj taken ▸ rfl
      · contradiction
    · contradiction
  | publish worker answer =>
    simp only [CompatSystem.step] at taken
    split at taken
    · split at taken
      · exact .inl (Option.some.inj taken ▸ rfl)
      · contradiction
    · contradiction
  | update worker fails =>
    left
    simp only [CompatSystem.step] at taken
    split at taken
    · split at taken
      · unfold CompatSystem.update at taken
        split at taken
        · exact absurd open_ (Option.some.inj taken ▸ rollback_ended)
        · split at taken
          · exact Option.some.inj taken ▸ rfl
          · split at taken
            · exact absurd open_ (Option.some.inj taken ▸ rollback_ended)
            · exact Option.some.inj taken ▸ rfl
      · contradiction
    · contradiction
  | commit worker reply =>
    simp only [CompatSystem.step] at taken
    split at taken
    · split at taken
      · obtain rfl := Option.some.inj taken
        cases reply <;>
          simp [CompatSystem.commit, CompatSystem.rollback, CompatSystem.close] at open_
      · contradiction
    · contradiction
  | crash worker =>
    simp only [CompatSystem.step] at taken
    split at taken
    · obtain rfl := Option.some.inj taken
      simp [CompatSystem.close] at open_
    · contradiction
  | tick elapsed => exact .inl (Option.some.inj taken ▸ rfl)

omit [Serde] in
theorem enqueue_encoded {table after : CompatTable} {subject : String} {messageId tenantId : Uuid}
    {encoded : Except CompatEnvelopeError (List UInt8)}
    (accepted : CompatOutbox.enqueue table now subject messageId tenantId encoded = .ok after) :
    ∃ body, encoded = .ok body ∧
      after.rows = table.rows ++ [compatEnqueued messageId tenantId subject body now] := by
  cases encoded with
  | error error =>
    simp only [CompatOutbox.enqueue, bind, Except.bind, Except.mapError] at accepted
    split at accepted <;> contradiction
  | ok body =>
    refine ⟨body, rfl, ?_⟩
    simp only [CompatOutbox.enqueue, bind, Except.bind, Except.mapError, pure, Except.pure, throw,
      throwThe, MonadExceptOf.throw] at accepted
    split at accepted
    · contradiction
    · split at accepted
      · contradiction
      · split at accepted
        · obtain rfl := Except.ok.inj accepted
          rfl
        · contradiction

omit [External] in
theorem compat_encode_ok {T : Type} [PayloadCodec T] {envelope : Envelope T} {bytes : List UInt8}
    (encoded : envelope.encode = .ok bytes) : envelope.validate = .ok () ∧
      ∃ payload, PayloadCodec.write envelope.payload = .ok payload ∧
        bytes = Serde.print (envelope.entries payload) := by
  cases valid : envelope.validate with
  | error error => simp [Envelope.encode, valid, bind, Except.bind] at encoded
  | ok =>
    cases wrote : PayloadCodec.write envelope.payload with
    | error error =>
      simp [Envelope.encode, valid, Envelope.fields, wrote, bind, Except.bind, Except.map,
        Except.mapError] at encoded
    | ok payload =>
      simp only [Envelope.encode, valid, Envelope.fields, wrote, bind, Except.bind, pure,
        Except.pure, Except.map, Except.mapError, Except.ok.injEq] at encoded
      exact ⟨rfl, payload, rfl, encoded.symm⟩

omit [External] in
/-- The bytes of a legible letter decode to its envelope, and to nothing of the other format. -/
theorem CompatLetter.Legible.decodes (legible : letter.Legible) (forms : TextForms)
    {bytes : List UInt8} (encoded : letter.envelope.encode = .ok bytes) :
    Envelope.decode bytes = .ok letter.envelope ∧ ∀ (U : Type) [PayloadCodec U],
      ∃ error, MessageEnvelope.decode (T := U) bytes = .error error := by
  obtain ⟨valid, payload, wrote, rfl⟩ := compat_encode_ok encoded
  obtain ⟨fields, _, represents⟩ :=
    compat_encode_represents forms wrote (legible.payload payload wrote) valid
  have scanned := legible.text _ fields
  exact ⟨compat_decode_represents valid scanned represents,
    fun U _ => decode_requires_schema scanned (compat_entries_unversioned payload)⟩

theorem holds_step (sound : s.Sound) (holds : s.Holds letters) (staged : a.StagesFrom letters)
    (taken : s.step a = some s') : s'.Holds letters := by
  intro row inside
  by_cases open_ : s'.ended = s.ended
  · rcases compat_step_table taken open_ with same |
      ⟨subject, messageId, tenantId, encoded, rfl⟩
    · exact holds row (same ▸ inside)
    · obtain ⟨letter, mine, call⟩ := staged _ _ _ _ rfl
      simp only [CompatSystem.step] at taken
      split at taken
      · rename_i after accepted
        obtain rfl := Option.some.inj taken
        obtain ⟨body, wrote, rows⟩ := enqueue_encoded accepted
        rcases List.mem_append.mp (rows ▸ inside) with old | new
        · exact holds row old
        · obtain rfl := List.mem_singleton.mp new
          cases call
          exact ⟨letter, mine, rfl, rfl, rfl, wrote⟩
      · obtain rfl := Option.some.inj taken
        exact holds row inside
  · have turn : CompatTurn s.history s'.history := by
      rcases (compat_step_turns sound taken).2 with same | turn
      · exact absurd (congrArg CompatHistory.ended same) open_
      · exact turn
    obtain ⟨old, here, same⟩ := turn_origin turn open_ inside
    obtain ⟨letter, mine, held⟩ := holds old here
    exact ⟨letter, mine, held.same same⟩

omit [Serde] in
/-- All that is handed over are the messages of rows of the table. -/
theorem handed_over_rows
    (reached : Reaches CompatSystem.step (fun _ _ => True) (.initial now) s)
    (sent : s.HandedOver handed) :
    ∃ row ∈ s.table.rows, ∃ answer, handed = row.handed answer := by
  rcases sent with ⟨e, member, logged⟩ | ⟨w, session, known, logged⟩
  · have accounted : s.history.Accounted := accounted_of_turns (turns_of_reaches reached)
    obtain ⟨row, inside, _, answer, named⟩ := accounted.genuine e member handed logged
    exact ⟨row, inside, answer, named⟩
  · have own := (compat_sound_of_reaches reached).sessions w session known
    obtain ⟨row, mine, _, answer, named⟩ := own.logged handed logged
    exact ⟨row, own.inside row mine, answer, named⟩

/-- In every run in which producers stage legible letters, whatever a worker hands to the broker,
in a batch that committed, failed, crashed or is still open, goes out under the id and the
subject of a staged letter and decodes to its envelope. The other outbox's reader rejects it,
whatever payload it expects. -/
theorem compat_delivers_what_was_staged (forms : TextForms)
    (legible : ∀ letter ∈ letters, letter.Legible)
    (reached : Reaches CompatSystem.step (fun _ a => a.StagesFrom letters) (.initial now) s)
    (sent : s.HandedOver handed) : ∃ letter ∈ letters,
      handed.messageId = letter.envelope.messageId ∧
      handed.message.subject = letter.subject ∧
      handed.message.headers = [("Nats-Msg-Id", Uuid.hyphenated letter.envelope.messageId)] ∧
      Envelope.decode handed.message.payload = .ok letter.envelope ∧
      ∀ (U : Type) [PayloadCodec U],
        ∃ error, MessageEnvelope.decode (T := U) handed.message.payload = .error error := by
  have free := reached.mono (fun _ _ _ => trivial)
  have holds : s.Holds letters := by
    have sound : ∀ x, Reaches CompatSystem.step (fun _ a => a.StagesFrom letters)
        (.initial now) x →
        x.Sound := fun x path => compat_sound_of_reaches (path.mono (fun _ _ _ => trivial))
    refine reached.invariant_given (CompatSystem.Holds letters) sound ?_ ?_
    · simp [CompatSystem.Holds, CompatSystem.initial]
    · intro x a y sound holds staged taken
      exact holds_step sound holds staged taken
  obtain ⟨row, inside, answer, rfl⟩ := handed_over_rows free sent
  obtain ⟨letter, mine, held⟩ := holds row inside
  obtain ⟨decoded, refused⟩ := (legible letter mine).decodes forms held.envelope
  refine ⟨letter, mine, held.id, held.subject, ?_, decoded, refused⟩
  simp [CompatRow.handed, CompatClaimedRow.message, CompatRow.claimed, held.id]

end Delivery

namespace Sample

attribute [local instance] hexReader serdeBoth unitCodec

def orderLetter : CompatLetter := ⟨Unit, unitCodec, "orders.created", order⟩

/- The worker dies after the publish. -/
def deliveryRun : List CompatAction :=
  [orderLetter.enqueue, .begin_ 7 ⟨1⟩ none, .claim 7 ⟨fun _ => false, fun _ => 0⟩ none,
    .publish 7 (.ok ()), .crash 7]

theorem compat_delivers_order : ∃ (s : CompatSystem) (handed : Handed),
    run CompatSystem.step (.initial 0) deliveryRun = some s ∧ s.HandedOver handed ∧
      Envelope.decode handed.message.payload = .ok order ∧
      ∃ error, MessageEnvelope.decode (T := Unit) handed.message.payload = .error error := by
  have ends : (run CompatSystem.step (.initial 0) deliveryRun).map
      (fun s => s.ended.map (fun e => e.log.length)) = some [1] := by decide +kernel
  obtain ⟨s, made, logs⟩ := Option.map_eq_some_iff.mp ends
  obtain ⟨e, ended, one⟩ := List.map_eq_singleton_iff.mp logs
  obtain ⟨handed, logged⟩ := List.length_eq_one_iff.mp one
  have sent : s.HandedOver handed := .inl ⟨e, by simp [ended], by simp [logged]⟩
  have full : Serde.scan (printed orderWritten) = some (.object orderWritten) := if_pos rfl
  have legible : ∀ letter ∈ ({orderLetter} : Set CompatLetter), letter.Legible := by
    rintro letter rfl
    constructor
    · intro field wrote
      obtain rfl := Except.ok.inj wrote
      rfl
    · intro fields wrote
      obtain rfl : orderWritten = fields := Except.ok.inj wrote
      exact full
  have staged : ∀ a ∈ deliveryRun, a.StagesFrom {orderLetter} := by
    intro a member subject messageId tenantId encoded same
    subst same
    simp [deliveryRun] at member
    exact ⟨orderLetter, rfl, member⟩
  obtain ⟨letter, mine, _, _, _, decoded, refused⟩ := compat_delivers_what_was_staged
    ⟨uuidOf_text, timeOf_text⟩ legible
    (reaches_of_run _ _ made (fun _ a member => staged a member)) sent
  cases mine
  exact ⟨s, handed, made, sent, decoded, refused Unit⟩

end Sample

end FiduciaMessaging
