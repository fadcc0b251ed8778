import FiduciaMessaging.Codec.RoundTrip
import FiduciaMessaging.Compat.Publisher

/-! The envelope of the compat outbox and its wire format. Absent options are written as
`null` and read back from that or from nothing; neither of the two envelope formats of the
crate reads what is written in the other. -/
namespace FiduciaMessaging

open KeyedRecord

/-- `compat_envelope::ENVELOPE_VERSION`. -/
def compatEnvelopeVersion : UInt16 := 1

structure Envelope (T : Type) where
  version : UInt16
  messageId : Uuid
  tenantId : Uuid
  messageType : String
  source : String
  occurredAt : Timestamp
  traceParent : Option String
  causationId : Option Uuid
  correlationId : Uuid
  payload : T

variable {T : Type}

/- `Envelope::new`, given the id and the time it draws. -/
def Envelope.new (messageId : Uuid) (now : Timestamp) (tenantId : Uuid)
    (messageType source : String)
    (payload : T) : Envelope T where
  version := compatEnvelopeVersion
  messageId := messageId
  tenantId := tenantId
  messageType := messageType
  source := source
  occurredAt := now
  traceParent := none
  causationId := none
  correlationId := messageId
  payload := payload

def Envelope.validate (envelope : Envelope T) : Except CompatEnvelopeError Unit :=
  if envelope.version ≠ compatEnvelopeVersion then .error (.unsupportedVersion envelope.version)
  else if Text.isBlank envelope.messageType.toList || Text.isBlank envelope.source.toList then
    .error .missingIdentity
  else .ok ()

/- The fields in declaration order. -/
inductive CompatField where
  | version
  | messageId
  | tenantId
  | messageType
  | source
  | occurredAt
  | traceParent
  | causationId
  | correlationId
  | payload
  deriving DecidableEq

namespace CompatField

def name : CompatField → String
  | version => "version"
  | messageId => "message_id"
  | tenantId => "tenant_id"
  | messageType => "message_type"
  | source => "source"
  | occurredAt => "occurred_at"
  | traceParent => "trace_parent"
  | causationId => "causation_id"
  | correlationId => "correlation_id"
  | payload => "payload"

def all : List CompatField :=
  [version, messageId, tenantId, messageType, source, occurredAt, traceParent, causationId,
    correlationId, payload]

def ofName (name : String) : Option CompatField := all.find? (fun field => field.name == name)

abbrev Slot (T : Type) : CompatField → Type
  | version => UInt16
  | messageId => Uuid
  | tenantId => Uuid
  | messageType => String
  | source => String
  | occurredAt => Timestamp
  | traceParent => Option String
  | causationId => Option Uuid
  | correlationId => Uuid
  | payload => T

/- The fields that hold an option. -/
def optional : CompatField → Bool
  | traceParent => true
  | causationId => true
  | _ => false

end CompatField

section Codec

variable [Serde]

/- What a field is written as; an absent option is `null`. -/
def Envelope.entry (envelope : Envelope T) (payload : Field) : CompatField → Field
  | .version => .tree (unsigned envelope.version.toNat)
  | .messageId => .tree (.string (Serde.uuidText envelope.messageId))
  | .tenantId => .tree (.string (Serde.uuidText envelope.tenantId))
  | .messageType => .tree (.string envelope.messageType)
  | .source => .tree (.string envelope.source)
  | .occurredAt => .tree (.string (Serde.timeText envelope.occurredAt))
  | .traceParent => .tree (envelope.traceParent.elim .null .string)
  | .causationId => .tree (envelope.causationId.elim .null (fun id => .string (Serde.uuidText id)))
  | .correlationId => .tree (.string (Serde.uuidText envelope.correlationId))
  | .payload => payload

def Envelope.entries (envelope : Envelope T) (payload : Field) : List (String × Field) :=
  CompatField.all.map (fun field => (field.name, envelope.entry payload field))

variable [PayloadCodec T]

def Envelope.fields (envelope : Envelope T) : Except String (List (String × Field)) := do
  let payload ← PayloadCodec.write envelope.payload
  return envelope.entries payload

def Envelope.encode (envelope : Envelope T) : Except CompatEnvelopeError (List UInt8) := do
  envelope.validate
  (envelope.fields.map Serde.print).mapError .json

def CompatField.read : (field : CompatField) → Field → Except ReadError (field.Slot T)
  | .version, value => (readUnsigned (2 ^ 16) value).map UInt16.ofNat
  | .messageId, value => readUuid value
  | .tenantId, value => readUuid value
  | .messageType, value => readString value
  | .source, value => readString value
  | .occurredAt, value => readTime value
  | .traceParent, value => readOption readString value
  | .causationId, value => readOption readUuid value
  | .correlationId, value => readUuid value
  | .payload, value => PayloadCodec.read value

abbrev CompatSlots (T : Type) := (field : CompatField) → Option (field.Slot T)

/- A missing option is `none`; the rest, the version too, must be there. -/
def CompatSlots.finish (slots : CompatSlots T) : Except ReadError (Envelope T) := do
  let version ← required "version" (slots .version)
  let messageId ← required "message_id" (slots .messageId)
  let tenantId ← required "tenant_id" (slots .tenantId)
  let messageType ← required "message_type" (slots .messageType)
  let source ← required "source" (slots .source)
  let occurredAt ← required "occurred_at" (slots .occurredAt)
  let correlationId ← required "correlation_id" (slots .correlationId)
  let payload ← required "payload" ((slots .payload).or PayloadCodec.absent)
  return {
    version := version
    messageId := messageId
    tenantId := tenantId
    messageType := messageType
    source := source
    occurredAt := occurredAt
    traceParent := (slots .traceParent).getD none
    causationId := (slots .causationId).getD none
    correlationId := correlationId
    payload := payload }

def compatVisitMap (fields : List (String × Field)) : Except ReadError (Envelope T) := do
  let slots ← KeyedRecord.fill CompatField.ofName (CompatField.read (T := T))
    (fun field => .duplicateField field.name) fields (fun _ => none)
  CompatSlots.finish slots

/- No field of this format has a default. -/
def compatVisitSeq (items : List Field) : Except ReadError (Envelope T) := do
  let slots ← KeyedRecord.fill CompatField.ofName (CompatField.read (T := T))
    (fun field => .duplicateField field.name)
    ((CompatField.all.map CompatField.name).zip items) (fun _ => none)
  match firstMissing CompatField.all (fun _ => false) items.length with
  | some index => throw (.invalidLength index)
  | none =>
    if CompatField.all.length < items.length then throw .trailingCharacters
    CompatSlots.finish slots

def Document.toCompatEnvelope : Document → Except ReadError (Envelope T)
  | .object fields => compatVisitMap fields
  | .array items => compatVisitSeq items
  | .scalar _ => .error .invalidType

def Envelope.decode (bytes : List UInt8) : Except CompatEnvelopeError (Envelope T) := do
  let envelope ← match Serde.scan bytes with
    | none => .error (.json (Serde.explain .malformed bytes))
    | some document =>
      document.toCompatEnvelope.mapError (fun error => .json (Serde.explain error bytes))
  envelope.validate
  return envelope

end Codec

/- What may be done to the fields of a compat object that its reader must tolerate. -/
inductive CompatVariant (written : List (String × Field)) : List (String × Field) → Prop where
  | same : CompatVariant written written
  | reordered {fields fields' : List (String × Field)} : CompatVariant written fields →
      fields.Perm fields' → CompatVariant written fields'
  | foreign {fields : List (String × Field)} (name : String) (value : Field) :
      CompatVariant written fields → name ∉ CompatField.all.map CompatField.name →
      CompatVariant written ((name, value) :: fields)
  | omitted {fields : List (String × Field)} (field : CompatField) :
      CompatVariant written fields →
      field.optional = true → (field.name, .tree .null) ∈ fields →
      CompatVariant written (fields.filter (fun entry => entry.1 != field.name))

def Envelope.slot (envelope : Envelope T) : (field : CompatField) → field.Slot T
  | .version => envelope.version
  | .messageId => envelope.messageId
  | .tenantId => envelope.tenantId
  | .messageType => envelope.messageType
  | .source => envelope.source
  | .occurredAt => envelope.occurredAt
  | .traceParent => envelope.traceParent
  | .causationId => envelope.causationId
  | .correlationId => envelope.correlationId
  | .payload => envelope.payload

/- A field whose absence reads as what it holds. -/
def Envelope.omits (envelope : Envelope T) : CompatField → Prop
  | .traceParent => envelope.traceParent = none
  | .causationId => envelope.causationId = none
  | _ => False

theorem compat_ofName_name (field : CompatField) : CompatField.ofName field.name = some field := by
  cases field <;> decide

theorem compat_name_of_ofName {name : String} {field : CompatField}
    (known : CompatField.ofName name = some field) : field.name = name := by
  unfold CompatField.ofName at known
  have matched := List.find?_some known
  exact beq_iff_eq.mp matched

theorem compat_ofName_none {name : String} :
    CompatField.ofName name = none ↔ name ∉ CompatField.all.map CompatField.name := by
  simp [CompatField.ofName, List.find?_eq_none]

section Read

variable [Serde] [PayloadCodec T] {envelope : Envelope T} {fields : List (String × Field)}
  {bytes : List UInt8}

structure CompatRepresents (envelope : Envelope T) (fields : List (String × Field)) : Prop where
  holds : Holds CompatField.ofName (CompatField.read (T := T)) envelope.slot fields
  missing : ∀ field, field ∉ present CompatField.ofName fields → envelope.omits field

theorem compatVisitMap_represents (represents : CompatRepresents envelope fields) :
    compatVisitMap fields = .ok envelope := by
  have filled := fill_holds (fun field => ReadError.duplicateField field.name) represents.holds
    (fun _ => none) (fun _ _ => rfl)
  have there (field : CompatField) (needed : ¬ envelope.omits field) :
      field ∈ present CompatField.ofName fields := by
    by_contra missing
    exact needed (represents.missing field missing)
  have read {A : Type} {held default : A} (field : CompatField)
      (absent : envelope.omits field → held = default) :
      (if field ∈ present CompatField.ofName fields then some held else none).getD default =
        held := by
    split
    · rfl
    · rename_i missing
      exact (absent (represents.missing field missing)).symm
  unfold compatVisitMap
  rw [filled]
  simp only [bind, Except.bind, CompatSlots.finish, required, pure, Except.pure,
    if_pos (there .version id), if_pos (there .messageId id), if_pos (there .tenantId id),
    if_pos (there .messageType id), if_pos (there .source id), if_pos (there .occurredAt id),
    if_pos (there .correlationId id), if_pos (there .payload id), Option.some_or, Envelope.slot,
    read .traceParent id, read .causationId id]

theorem compat_read_entry (forms : TextForms) {payload : Field}
    (back : PayloadCodec.read payload = .ok envelope.payload) (field : CompatField) :
    field.read (envelope.entry payload field) = .ok (envelope.slot field) := by
  have uuid (id : Uuid) : readUuid (.tree (.string (Serde.uuidText id))) = .ok id := by
    simp [readUuid, readString, forms.uuid id, bind, Except.bind, pure, Except.pure]
  have time (at_ : Timestamp) : readTime (.tree (.string (Serde.timeText at_))) = .ok at_ := by
    simp [readTime, readString, forms.time at_, bind, Except.bind, pure, Except.pure]
  cases field with
  | version =>
    simp only [CompatField.read, Envelope.entry,
      readUnsigned_unsigned envelope.version.toNat_lt (by decide)]
    exact congrArg Except.ok UInt16.ofNat_toNat
  | messageId => exact uuid _
  | tenantId => exact uuid _
  | messageType => rfl
  | source => rfl
  | occurredAt => exact time _
  | traceParent =>
    simp only [CompatField.read, Envelope.entry, Envelope.slot]
    cases envelope.traceParent with
    | none => rfl
    | some parent => exact readOption_tree (by simp) rfl
  | causationId =>
    simp only [CompatField.read, Envelope.entry, Envelope.slot]
    cases envelope.causationId with
    | none => rfl
    | some id => exact readOption_tree (by simp) (uuid id)
  | correlationId => exact uuid _
  | payload => exact back

omit [PayloadCodec T] in
/-- The keys of the written entries are all the fields, in order. -/
theorem compat_present_entries (payload : Field) :
    present CompatField.ofName (envelope.entries payload) = CompatField.all := by
  simp [present, Envelope.entries, CompatField.all, compat_ofName_name]

theorem compat_written_represents (forms : TextForms) {payload : Field}
    (back : PayloadCodec.read payload = .ok envelope.payload) :
    CompatRepresents envelope (envelope.entries payload) where
  holds := by
    constructor
    · rw [compat_present_entries]
      decide
    · intro entry member field known
      obtain ⟨field', _, rfl⟩ := List.mem_map.mp member
      obtain rfl := Option.some.inj ((compat_ofName_name field').symm.trans known)
      exact compat_read_entry forms back field'
  missing := by
    intro field missing
    rw [compat_present_entries] at missing
    exact absurd (by cases field <;> decide) missing

theorem compat_variant_represents {written : List (String × Field)}
    (represents : CompatRepresents envelope written) (variant : CompatVariant written fields) :
    CompatRepresents envelope fields := by
  induction variant with
  | same => exact represents
  | reordered _ perm ih =>
    refine ⟨ih.holds.perm perm, ?_⟩
    intro field missing
    exact ih.missing field (mt (perm.filterMap _).mem_iff.mp missing)
  | foreign name value _ unknown ih =>
    have foreign := compat_ofName_none.mpr unknown
    refine ⟨ih.holds.unknown foreign, ?_⟩
    rw [present_cons_none _ _ foreign]
    exact ih.missing
  | @omitted fields dropped _ optional null ih =>
    refine ⟨ih.holds.sublist List.filter_sublist, ?_⟩
    intro field missing
    by_cases same : field = dropped
    · -- the entry that is left out read as what the envelope holds
      subst same
      have reads := ih.holds.reads _ null field (compat_ofName_name field)
      cases field <;> first | exact (Except.ok.inj reads).symm | cases optional
    · apply ih.missing field
      intro member
      obtain ⟨entry, inside, known⟩ := List.mem_filterMap.mp member
      refine missing (List.mem_filterMap.mpr
        ⟨entry, List.mem_filter.mpr ⟨inside, ?_⟩, known⟩)
      rw [bne_iff_ne]
      intro named
      rw [named, compat_ofName_name] at known
      exact same (Option.some.inj known).symm

theorem compat_decode_represents (valid : envelope.validate = .ok ())
    (scanned : Serde.scan bytes = some (.object fields))
    (represents : CompatRepresents envelope fields) : Envelope.decode bytes = .ok envelope := by
  simp only [Envelope.decode, scanned, Document.toCompatEnvelope,
    compatVisitMap_represents represents, bind, Except.bind, Except.mapError, valid, pure,
    Except.pure]

/-- A valid envelope whose payload reads back is encoded, and represented by what is written. -/
theorem compat_encode_represents (forms : TextForms) {payload : Field}
    (wrote : PayloadCodec.write envelope.payload = .ok payload)
    (back : PayloadCodec.read payload = .ok envelope.payload) (valid : envelope.validate = .ok ()) :
    envelope.fields = .ok (envelope.entries payload) ∧
      envelope.encode = .ok (Serde.print (envelope.entries payload)) ∧
      CompatRepresents envelope (envelope.entries payload) := by
  have fields : envelope.fields = .ok (envelope.entries payload) := by
    simp only [Envelope.fields, wrote, bind, Except.bind, pure, Except.pure]
  refine ⟨fields, ?_, compat_written_represents forms back⟩
  simp only [Envelope.encode, valid, fields, bind, Except.bind, Except.map, Except.mapError]

theorem compat_decode_validates (decoded : Envelope.decode bytes = .ok envelope) :
    envelope.validate = .ok () := by
  unfold Envelope.decode at decoded
  cases scanned : Serde.scan bytes with
  | none => simp [scanned, bind, Except.bind] at decoded
  | some document =>
    cases read : document.toCompatEnvelope (T := T) with
    | error e => simp [scanned, read, bind, Except.bind, Except.mapError] at decoded
    | ok found =>
      cases valid : found.validate with
      | error e => simp [scanned, read, valid, bind, Except.bind, Except.mapError] at decoded
      | ok =>
        simp only [scanned, read, valid, bind, Except.bind, Except.mapError, pure, Except.pure,
          Except.ok.injEq] at decoded
        exact decoded ▸ valid

/-- Whatever the payload, an object without a schema version is no envelope of the other outbox. -/
theorem decode_requires_schema (scanned : Serde.scan bytes = some (.object fields))
    (absent : EnvelopeField.name .schemaVersion ∉ fields.map Prod.fst) :
    ∃ error, MessageEnvelope.decode (T := T) bytes = .error error := by
  have read : ∃ error, visitMap (T := T) fields = .error error := by
    unfold visitMap
    cases filled : KeyedRecord.fill EnvelopeField.ofName (EnvelopeField.read (T := T))
        (fun field => .duplicateField field.name) fields (fun _ => none) with
    | error error => exact ⟨error, rfl⟩
    | ok slots =>
      have empty : slots .schemaVersion = none := fill_absent _ filled (mt mem_present.mp absent)
      simp only [bind, Except.bind, Slots.finish, empty]
      cases slots .messageId with
      | none => exact ⟨_, rfl⟩
      | some id =>
        cases slots .messageType with
        | none => exact ⟨_, rfl⟩
        | some messageType => exact ⟨_, rfl⟩
  obtain ⟨error, read⟩ := read
  simp only [MessageEnvelope.decode, EnvelopeCodec.fromSlice, scanned, Document.toEnvelope, read,
    bind, Except.bind, Except.mapError]
  exact ⟨_, rfl⟩

/-- Nor is one without a version an envelope of the compat outbox. -/
theorem compat_decode_requires_version (scanned : Serde.scan bytes = some (.object fields))
    (absent : CompatField.name .version ∉ fields.map Prod.fst) :
    ∃ error, Envelope.decode (T := T) bytes = .error error := by
  have read : ∃ error, compatVisitMap (T := T) fields = .error error := by
    unfold compatVisitMap
    cases filled : KeyedRecord.fill CompatField.ofName (CompatField.read (T := T))
        (fun field => .duplicateField field.name) fields (fun _ => none) with
    | error error => exact ⟨error, rfl⟩
    | ok slots =>
      have unnamed : CompatField.version ∉ present CompatField.ofName fields := by
        intro member
        obtain ⟨entry, inside, known⟩ := List.mem_filterMap.mp member
        exact absent (List.mem_map.mpr ⟨entry, inside, (compat_name_of_ofName known).symm⟩)
      have empty : slots .version = none := fill_absent _ filled unnamed
      simp only [bind, Except.bind, CompatSlots.finish, empty]
      exact ⟨_, rfl⟩
  obtain ⟨error, read⟩ := read
  simp only [Envelope.decode, scanned, Document.toCompatEnvelope, read, bind, Except.bind,
    Except.mapError]
  exact ⟨_, rfl⟩

omit [PayloadCodec T] in
/-- What is written for this outbox names no schema version, what is written for the other
no version. -/
theorem compat_entries_unversioned (payload : Field) :
    EnvelopeField.name .schemaVersion ∉ (envelope.entries payload).map Prod.fst := by
  have names : (envelope.entries payload).map Prod.fst = CompatField.all.map CompatField.name := by
    simp [Envelope.entries, Function.comp_def]
  rw [names]
  decide

omit [PayloadCodec T] in
theorem entries_unversioned {canonical : MessageEnvelope T} (payload : Field) :
    CompatField.name .version ∉ (canonical.entries Field.tree payload).map Prod.fst := by
  intro member
  obtain ⟨entry, inside, same⟩ := List.mem_map.mp member
  obtain ⟨field, _, named⟩ := List.mem_filterMap.mp inside
  obtain ⟨value, _, rfl⟩ := Option.map_eq_some_iff.mp named
  have other : field.name ≠ CompatField.name .version := by cases field <;> decide
  exact other same

/- The payload is written as a field, and reads back as itself. -/
def Envelope.PayloadReadsBack (envelope : Envelope T) : Prop :=
  ∃ field, PayloadCodec.write envelope.payload = .ok field ∧
    PayloadCodec.read field = .ok envelope.payload

/-- Where the payload reads back, a valid envelope decodes from its encoding and from every
variant of it, and what decodes is valid and decodes from its own encoding; and whatever the
payloads, neither reader takes what was written for the other. -/
theorem compat_codec_round_trips (forms : TextForms) :
    (∀ envelope : Envelope T, envelope.validate = .ok () → envelope.PayloadReadsBack →
      ∃ fields, envelope.fields = .ok fields ∧ envelope.encode = .ok (Serde.print fields) ∧
        (∀ bytes fields', CompatVariant fields fields' →
          Serde.scan bytes = some (.object fields') →
          Envelope.decode bytes = .ok envelope) ∧
        ∀ bytes, Serde.scan bytes = some (.object fields) → ∀ (U : Type) [PayloadCodec U],
          ∃ error, MessageEnvelope.decode (T := U) bytes = .error error) ∧
    (∀ (bytes : List UInt8) (envelope : Envelope T), Envelope.decode bytes = .ok envelope →
      envelope.validate = .ok () ∧ (envelope.PayloadReadsBack →
        ∃ fields, envelope.encode = .ok (Serde.print fields) ∧
          (ReadsBack fields → Envelope.decode (Serde.print fields) = .ok envelope))) ∧
    ∀ (canonical : MessageEnvelope T) (fields : List (String × Field)) (bytes : List UInt8),
      canonical.fields = .ok fields → Serde.scan bytes = some (.object fields) →
        ∀ (U : Type) [PayloadCodec U], ∃ error, Envelope.decode (T := U) bytes =
          .error error := by
  refine ⟨?_, ?_, ?_⟩
  · rintro envelope valid ⟨payload, wrote, back⟩
    obtain ⟨fields, encoded, represents⟩ := compat_encode_represents forms wrote back valid
    refine ⟨_, fields, encoded, ?_, ?_⟩
    · intro bytes fields' variant scanned
      exact compat_decode_represents valid scanned (compat_variant_represents represents variant)
    · intro bytes scanned U codec
      exact decode_requires_schema scanned (compat_entries_unversioned payload)
  · intro bytes envelope decoded
    have valid := compat_decode_validates decoded
    refine ⟨valid, ?_⟩
    rintro ⟨payload, wrote, back⟩
    obtain ⟨_, encoded, represents⟩ := compat_encode_represents forms wrote back valid
    exact ⟨_, encoded, fun back => compat_decode_represents valid back represents⟩
  · intro canonical fields bytes wrote scanned U codec
    simp only [MessageEnvelope.fields, bind, Except.bind, pure, Except.pure] at wrote
    split at wrote
    · cases wrote
    · rename_i payload _
      obtain rfl := Except.ok.inj wrote
      exact compat_decode_requires_version scanned (entries_unversioned payload)

end Read

namespace Sample

def order : Envelope Unit := .new 1 0 1 "order.created" "shop" ()

def orderWritten : List (String × Field) :=
  [("version", .tree (unsigned 1)), ("message_id", .tree (.string uuidOne)),
    ("tenant_id", .tree (.string uuidOne)), ("message_type", .tree (.string "order.created")),
    ("source", .tree (.string "shop")), ("occurred_at", .tree (.string epoch)),
    ("trace_parent", .tree .null), ("causation_id", .tree .null),
    ("correlation_id", .tree (.string uuidOne)), ("payload", .tree .null)]

/- Another producer's rendering: a foreign field, and an absent option left out. -/
def orderTerse : List (String × Field) :=
  ("a_future_field", .tree (.bool true)) ::
    orderWritten.filter (fun entry => entry.1 != "trace_parent")

/- The texts of both formats. -/
@[reducible] def serdeBoth : Serde where
  scan bytes :=
    if bytes = printed orderWritten then some (.object orderWritten)
    else if bytes = printed orderTerse then some (.object orderTerse)
    else if bytes = printed written then some (.object written)
    else none
  print := printed
  explain _ _ := "not sampled"
  uuidText := uuidText
  readUuid := uuidOf
  timeText := timeText
  readTime := timeOf

attribute [local instance] serdeBoth unitCodec

theorem compat_codec_round_trips_order :
    order.encode = .ok (printed orderWritten) ∧
      Envelope.decode (printed orderWritten) = .ok order ∧
      Envelope.decode (printed orderTerse) = .ok order ∧
      (∃ error, MessageEnvelope.decode (T := Unit) (printed orderWritten) = .error error) ∧
      ∃ error, Envelope.decode (T := Unit) (printed written) = .error error := by
  have full : Serde.scan (printed orderWritten) = some (.object orderWritten) := if_pos rfl
  have terse : Serde.scan (printed orderTerse) = some (.object orderTerse) := by
    have other : printed orderTerse ≠ printed orderWritten := by decide +kernel
    exact (if_neg other).trans (if_pos rfl)
  have canonical : Serde.scan (printed written) = some (.object written) := by
    have first : printed written ≠ printed orderWritten := by decide +kernel
    have second : printed written ≠ printed orderTerse := by decide +kernel
    exact (if_neg first).trans ((if_neg second).trans (if_pos rfl))
  obtain ⟨round, _, apart⟩ :=
    compat_codec_round_trips (T := Unit) ⟨uuidOf_text, timeOf_text⟩
  obtain ⟨fields, wrote, encoded, variants, refused⟩ :=
    round order (by decide) ⟨_, rfl, rfl⟩
  obtain rfl : orderWritten = fields := Except.ok.inj wrote
  have unwritten : (CompatField.name .traceParent, Field.tree .null) ∈ orderWritten := by
    simp [orderWritten, CompatField.name]
  refine ⟨encoded, variants _ _ .same full, variants _ _ ?_ terse, refused _ full Unit,
    apart claim written _ rfl canonical Unit⟩
  exact .foreign _ _ (.omitted .traceParent .same rfl unwritten) (by decide)

end Sample

end FiduciaMessaging
