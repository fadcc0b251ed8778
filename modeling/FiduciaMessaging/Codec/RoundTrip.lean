import FiduciaMessaging.Codec.Derive

/-! The envelope codec. Whatever a writer of this build or a newer one makes of an envelope
decodes to that envelope. -/
namespace FiduciaMessaging

open KeyedRecord

/- The readers of identifiers and times invert their writers. -/
structure TextForms [Serde] : Prop where
  uuid : ∀ id, Serde.readUuid (Serde.uuidText id) = some id
  time : ∀ at_, Serde.readTime (Serde.timeText at_) = some at_

/- Every payload is written, and reads back as itself. -/
def PayloadRoundTrips (T : Type) [PayloadCodec T] : Prop :=
  ∀ payload : T, ∃ field, PayloadCodec.write payload = .ok field ∧
    PayloadCodec.read field = .ok payload

/- What may be done to the fields of an object that a reader must tolerate: reorder them, add
foreign fields, write absent options as `null`, and leave out the version. -/
inductive Variant (written : List (String × Field)) : List (String × Field) → Prop where
  | same : Variant written written
  | reordered {fields fields' : List (String × Field)} : Variant written fields →
      fields.Perm fields' → Variant written fields'
  | foreign {fields : List (String × Field)} (name : String) (value : Field) :
      Variant written fields → name ∉ EnvelopeField.all.map EnvelopeField.name →
      Variant written ((name, value) :: fields)
  | null {fields : List (String × Field)} (field : EnvelopeField) : Variant written fields →
      field.optional = true → field.name ∉ fields.map Prod.fst →
      Variant written ((field.name, .tree .null) :: fields)
  | unversioned {fields : List (String × Field)} : Variant written fields →
      Variant written (fields.filter (fun entry => entry.1 != "envelope_version"))

variable {T : Type}

def MessageEnvelope.slot (envelope : MessageEnvelope T) : (field : EnvelopeField) → field.Slot T
  | .envelopeVersion => envelope.envelopeVersion
  | .messageId => envelope.messageId
  | .messageType => envelope.messageType
  | .source => envelope.source
  | .schemaVersion => envelope.schemaVersion
  | .correlationId => envelope.correlationId
  | .causationId => envelope.causationId
  | .tenantId => envelope.tenantId
  | .workflowId => envelope.workflowId
  | .executionId => envelope.executionId
  | .idempotencyKey => envelope.idempotencyKey
  | .fencingToken => envelope.fencingToken
  | .createdAt => envelope.createdAt
  | .expiresAt => envelope.expiresAt
  | .traceParent => envelope.traceParent
  | .payload => envelope.payload

/- A field whose absence reads as what it holds. -/
def MessageEnvelope.omits (envelope : MessageEnvelope T) : EnvelopeField → Prop
  | .envelopeVersion => envelope.envelopeVersion = FiduciaMessaging.envelopeVersion
  | .source => envelope.source = none
  | .causationId => envelope.causationId = none
  | .tenantId => envelope.tenantId = none
  | .workflowId => envelope.workflowId = none
  | .executionId => envelope.executionId = none
  | .fencingToken => envelope.fencingToken = none
  | .expiresAt => envelope.expiresAt = none
  | .traceParent => envelope.traceParent = none
  | _ => False

theorem ofName_name (field : EnvelopeField) : EnvelopeField.ofName field.name = some field := by
  cases field <;> decide

theorem name_of_ofName {name : String} {field : EnvelopeField}
    (known : EnvelopeField.ofName name = some field) : field.name = name := by
  unfold EnvelopeField.ofName at known
  have matched := List.find?_some known
  exact beq_iff_eq.mp matched

theorem ofName_none {name : String} :
    EnvelopeField.ofName name = none ↔ name ∉ EnvelopeField.all.map EnvelopeField.name := by
  simp [EnvelopeField.ofName, List.find?_eq_none]

theorem mem_all (field : EnvelopeField) : field ∈ EnvelopeField.all := by
  cases field <;> decide

theorem mem_present {fields : List (String × Field)} {field : EnvelopeField} :
    field ∈ present EnvelopeField.ofName fields ↔ field.name ∈ fields.map Prod.fst := by
  constructor
  · intro member
    obtain ⟨entry, inside, known⟩ := List.mem_filterMap.mp member
    exact List.mem_map.mpr ⟨entry, inside, (name_of_ofName known).symm⟩
  · intro member
    obtain ⟨entry, inside, same⟩ := List.mem_map.mp member
    exact List.mem_filterMap.mpr ⟨entry, inside, same ▸ ofName_name field⟩

section Read

variable [Serde] [PayloadCodec T] {envelope : MessageEnvelope T} {fields : List (String × Field)}

/- The fields hold the envelope, and what they leave out reads as what it holds. -/
structure Represents (envelope : MessageEnvelope T) (fields : List (String × Field)) : Prop where
  holds : Holds EnvelopeField.ofName (EnvelopeField.read (T := T)) envelope.slot fields
  missing : ∀ field, field ∉ present EnvelopeField.ofName fields → envelope.omits field

/-- Fields that represent an envelope are read as that envelope. -/
theorem visitMap_represents (represents : Represents envelope fields) :
    visitMap fields = .ok envelope := by
  have filled := fill_holds (fun field => ReadError.duplicateField field.name) represents.holds
    (fun _ => none) (fun _ _ => rfl)
  have there (field : EnvelopeField) (needed : ¬ envelope.omits field) :
      field ∈ present EnvelopeField.ofName fields := by
    by_contra missing
    exact needed (represents.missing field missing)
  have read {A : Type} {held default : A} (field : EnvelopeField)
      (absent : envelope.omits field → held = default) :
      (if field ∈ present EnvelopeField.ofName fields then some held else none).getD default =
        held := by
    split
    · rfl
    · rename_i missing
      exact (absent (represents.missing field missing)).symm
  unfold visitMap
  rw [filled]
  simp only [bind, Except.bind, Slots.finish, required, pure, Except.pure,
    if_pos (there .messageId id), if_pos (there .messageType id), if_pos (there .schemaVersion id),
    if_pos (there .correlationId id), if_pos (there .idempotencyKey id),
    if_pos (there .createdAt id), if_pos (there .payload id), Option.some_or,
    MessageEnvelope.slot, read .envelopeVersion id, read .source id, read .causationId id,
    read .tenantId id, read .workflowId id, read .executionId id, read .fencingToken id,
    read .expiresAt id, read .traceParent id]

omit [PayloadCodec T] in
/-- The keys of the written entries are the fields that are not left out, in order. -/
theorem present_entries {payload : Field} :
    present EnvelopeField.ofName (envelope.entries .tree payload) =
    EnvelopeField.all.filter (fun field => (envelope.entry Field.tree payload field).isSome) := by
  unfold present MessageEnvelope.entries
  rw [List.filterMap_filterMap, ← List.filterMap_eq_filter]
  congr 1
  funext field
  cases written : envelope.entry Field.tree payload field with
  | none => simp [Option.guard, written]
  | some value =>
    change EnvelopeField.ofName field.name = _
    rw [ofName_name]
    simp [Option.guard, written]

omit [Serde] in
theorem readUnsigned_unsigned {bound n : Nat} (fits : n < bound) (word : bound ≤ 2 ^ 64) :
    readUnsigned bound (.tree (unsigned n)) = .ok n := by
  have value : (UInt64.ofNat n).toNat = n :=
    UInt64.toNat_ofNat_of_lt' (Nat.lt_of_lt_of_le fits word)
  simp only [readUnsigned, unsigned, value, fits, if_true]

omit [Serde] in
theorem readOption_tree {A : Type} {read : Field → Except ReadError A} {value : Value} {a : A}
    (present : value ≠ .null) (found : read (.tree value) = .ok a) :
    readOption read (.tree value) = .ok (some a) := by
  unfold readOption
  split
  · rename_i null
    exact absurd (Field.tree.inj null) present
  · rw [found]
    rfl

/-- Each written field reads as what the envelope holds. -/
theorem read_entry (forms : TextForms) {payload : Field}
    (back : PayloadCodec.read payload = .ok envelope.payload) {field : EnvelopeField}
    {value : Field}
    (written : envelope.entry .tree payload field = some value) :
    field.read value = .ok (envelope.slot field) := by
  have uuid (id : Uuid) : readUuid (.tree (.string (Serde.uuidText id))) = .ok id := by
    simp [readUuid, readString, forms.uuid id, bind, Except.bind, pure, Except.pure]
  have time (at_ : Timestamp) : readTime (.tree (.string (Serde.timeText at_))) = .ok at_ := by
    simp [readTime, readString, forms.time at_, bind, Except.bind, pure, Except.pure]
  have option {A : Type} {read : Field → Except ReadError A} {write : A →
      Value} {held : Option A}
      (full : ∀ a, write a ≠ .null) (found : ∀ a, read (.tree (write a)) = .ok a)
      (some_ : held.map (fun a => Field.tree (write a)) = some value) :
      readOption read value = .ok held := by
    obtain ⟨a, rfl, rfl⟩ := Option.map_eq_some_iff.mp some_
    exact readOption_tree (full a) (found a)
  cases field with
  | envelopeVersion =>
    obtain rfl := Option.some.inj written
    simp only [EnvelopeField.read,
      readUnsigned_unsigned envelope.envelopeVersion.toNat_lt (by decide)]
    exact congrArg Except.ok (UInt16.ofNat_toNat)
  | messageId => exact Option.some.inj written ▸ uuid _
  | messageType => exact Option.some.inj written ▸ rfl
  | source => exact option (by simp) (fun _ => rfl) written
  | schemaVersion =>
    obtain rfl := Option.some.inj written
    simp only [EnvelopeField.read,
      readUnsigned_unsigned envelope.schemaVersion.toNat_lt (by decide)]
    exact congrArg Except.ok (UInt32.ofNat_toNat)
  | correlationId => exact Option.some.inj written ▸ uuid _
  | causationId => exact option (by simp) uuid written
  | tenantId => exact option (by simp) uuid written
  | workflowId => exact option (by simp) uuid written
  | executionId => exact option (by simp) uuid written
  | idempotencyKey => exact Option.some.inj written ▸ rfl
  | fencingToken =>
    refine option (by simp [unsigned]) ?_ written
    intro token
    rw [readUnsigned_unsigned token.toNat_lt (by decide)]
    exact congrArg Except.ok (UInt64.ofNat_toNat)
  | createdAt => exact Option.some.inj written ▸ time _
  | expiresAt => exact option (by simp) time written
  | traceParent => exact option (by simp) (fun _ => rfl) written
  | payload => exact Option.some.inj written ▸ back

omit [PayloadCodec T] in
theorem omits_of_unwritten (payload : Field) {field : EnvelopeField}
    (unwritten : envelope.entry .tree payload field = none) : envelope.omits field := by
  cases field <;> first | exact Option.map_eq_none_iff.mp unwritten | cases unwritten

/-- What the writer emits represents the envelope. -/
theorem written_represents (forms : TextForms) {payload : Field}
    (back : PayloadCodec.read payload = .ok envelope.payload) :
    Represents envelope (envelope.entries .tree payload) where
  holds := by
    constructor
    · rw [present_entries]
      exact (List.filter_sublist).nodup (by decide)
    · intro entry member field known
      obtain ⟨field', _, named⟩ := List.mem_filterMap.mp member
      obtain ⟨value, written, rfl⟩ := Option.map_eq_some_iff.mp named
      obtain rfl := Option.some.inj ((ofName_name field').symm.trans known)
      exact read_entry forms back written
  missing := by
    intro field missing
    rw [present_entries] at missing
    apply omits_of_unwritten payload
    cases written : envelope.entry Field.tree payload field with
    | none => rfl
    | some value =>
      exact absurd (List.mem_filter.mpr ⟨mem_all field, by rw [written]; rfl⟩) missing

/-- An absent option that is written as `null` reads as what the envelope holds. -/
theorem read_null {field : EnvelopeField} (optional : field.optional = true)
    (absent : envelope.omits field) : field.read (.tree .null) = .ok (envelope.slot field) := by
  cases field <;> first | exact congrArg Except.ok absent.symm | cases optional

theorem variant_represents (current : envelope.envelopeVersion = FiduciaMessaging.envelopeVersion)
    {written : List (String × Field)} (represents : Represents envelope written)
    (variant : Variant written fields) : Represents envelope fields := by
  induction variant with
  | same => exact represents
  | reordered _ perm ih =>
    refine ⟨ih.holds.perm perm, ?_⟩
    intro field missing
    exact ih.missing field (mt (perm.filterMap _).mem_iff.mp missing)
  | foreign name value _ unknown ih =>
    have foreign := ofName_none.mpr unknown
    refine ⟨ih.holds.unknown foreign, ?_⟩
    rw [present_cons_none _ _ foreign]
    exact ih.missing
  | null field _ optional fresh ih =>
    have absent := ih.missing field (mt mem_present.mp fresh)
    refine ⟨ih.holds.known (ofName_name field) (mt mem_present.mp fresh)
      (read_null optional absent), ?_⟩
    intro other missing
    rw [present_cons_some _ _ (ofName_name field)] at missing
    exact ih.missing other (fun member => missing (List.mem_cons_of_mem _ member))
  | @unversioned fields _ ih =>
    refine ⟨ih.holds.sublist List.filter_sublist, ?_⟩
    intro field missing
    by_cases version : field = .envelopeVersion
    · subst version
      exact current
    · apply ih.missing field
      intro member
      obtain ⟨entry, inside, known⟩ := List.mem_filterMap.mp member
      refine missing (List.mem_filterMap.mpr
        ⟨entry, List.mem_filter.mpr ⟨inside, ?_⟩, known⟩)
      rw [bne_iff_ne]
      intro same
      rw [same] at known
      exact version (Option.some.inj (known.symm.trans (ofName_name .envelopeVersion)))

/-- A valid envelope is decoded from any slice whose fields represent it. -/
theorem decode_represents (valid : envelope.validate = .ok ()) {bytes : List UInt8}
    (scanned : Serde.scan bytes = some (.object fields)) (represents : Represents envelope fields) :
    MessageEnvelope.decode bytes = .ok envelope := by
  have read : EnvelopeCodec.fromSlice bytes = .ok envelope := by
    simp only [EnvelopeCodec.fromSlice, scanned, Document.toEnvelope,
      visitMap_represents represents, Except.mapError]
  simp only [MessageEnvelope.decode, read, bind, Except.bind, Except.mapError, valid, pure,
    Except.pure]

theorem decode_validates {bytes : List UInt8}
    (decoded : MessageEnvelope.decode bytes = .ok envelope) : envelope.validate = .ok () := by
  unfold MessageEnvelope.decode at decoded
  cases read : EnvelopeCodec.fromSlice (T := T) bytes with
  | error e => simp [read, bind, Except.bind, Except.mapError] at decoded
  | ok found =>
    cases valid : found.validate with
    | error e => simp [read, valid, bind, Except.bind, Except.mapError] at decoded
    | ok =>
      simp only [read, valid, bind, Except.bind, Except.mapError, pure, Except.pure,
        Except.ok.injEq] at decoded
      exact decoded ▸ valid

omit [Serde] [PayloadCodec T] in
theorem validate_version (valid : envelope.validate = .ok ()) :
    envelope.envelopeVersion = FiduciaMessaging.envelopeVersion := by
  unfold MessageEnvelope.validate at valid
  split at valid
  · cases valid
  · rename_i current
    exact not_not.mp current

/- The text printed for the fields reads as these fields. -/
def ReadsBack (fields : List (String × Field)) : Prop :=
  Serde.scan (Serde.print fields) = some (.object fields)

/-- A valid envelope is encoded, and decoded from what was encoded. -/
theorem encode_decodes (forms : TextForms) (payloads : PayloadRoundTrips T)
    (valid : envelope.validate = .ok ()) : ∃ fields, envelope.fields = .ok fields ∧
      envelope.encode = .ok (Serde.print fields) ∧ Represents envelope fields := by
  obtain ⟨payload, wrote, back⟩ := payloads envelope.payload
  have fields : envelope.fields = .ok (envelope.entries .tree payload) := by
    simp only [MessageEnvelope.fields, wrote, bind, Except.bind, pure, Except.pure]
  refine ⟨_, fields, ?_, written_represents forms back⟩
  simp only [MessageEnvelope.encode, MessageEnvelope.toVec, valid, fields, bind, Except.bind,
    Except.map, Except.mapError]

/-- A valid envelope decodes from its encoding and from every variant of it; whatever
decodes is valid, and decodes from its own encoding. -/
theorem codec_round_trips (forms : TextForms) (payloads : PayloadRoundTrips T) :
    (∀ envelope : MessageEnvelope T, envelope.validate = .ok () →
      ∃ fields, envelope.fields = .ok fields ∧ envelope.encode = .ok (Serde.print fields) ∧
        (ReadsBack fields → MessageEnvelope.decode (Serde.print fields) = .ok envelope) ∧
        ∀ bytes fields', Variant fields fields' → Serde.scan bytes = some (.object fields') →
          MessageEnvelope.decode bytes = .ok envelope) ∧
    ∀ (bytes : List UInt8) (envelope : MessageEnvelope T),
      MessageEnvelope.decode bytes = .ok envelope → envelope.validate = .ok () ∧
        ∃ fields, envelope.fields = .ok fields ∧ envelope.encode = .ok (Serde.print fields) ∧
          (ReadsBack fields → MessageEnvelope.decode (Serde.print fields) = .ok envelope) := by
  constructor
  · intro envelope valid
    obtain ⟨fields, wrote, encoded, represents⟩ := encode_decodes forms payloads valid
    refine ⟨fields, wrote, encoded, fun back => decode_represents valid back represents, ?_⟩
    intro bytes fields' variant scanned
    exact decode_represents valid scanned
      (variant_represents (validate_version valid) represents variant)
  · intro bytes envelope decoded
    have valid := decode_validates decoded
    obtain ⟨fields, wrote, encoded, represents⟩ := encode_decodes forms payloads valid
    exact ⟨valid, fields, wrote, encoded, fun back => decode_represents valid back represents⟩

end Read

namespace Sample

/- Texts for the sampled values are those of the real writers; any other identifier or
time is written as a number. -/

def uuidOne : String := "00000000-0000-0000-0000-000000000001"

def epoch : String := "1970-01-01T00:00:00Z"

def numbered (sign : Char) (n : Nat) : String := String.ofList (sign :: Nat.toDigits 10 n)

def readNumbered (sign : Char) (text : String) : Option Nat :=
  match text.toList with
  | [] => none
  | first :: digits => if first = sign then some (Nat.ofDigitChars 10 digits 0) else none

theorem readNumbered_same {sign : Char} {n : Nat} :
    readNumbered sign (numbered sign n) = some n := by
  simp [readNumbered, numbered]

theorem readNumbered_other {sign other : Char} {n : Nat} (different : other ≠ sign) :
    readNumbered sign (numbered other n) = none := by
  simp [readNumbered, numbered, different]

theorem numbered_ne {sign first : Char} {n : Nat} {rest : List Char} (different : sign ≠ first) :
    numbered sign n ≠ String.ofList (first :: rest) := by
  intro same
  have lists := congrArg String.toList same
  simp only [numbered, String.toList_ofList] at lists
  exact different (List.cons.inj lists).1

def uuidText (id : Uuid) : String := if id = 1 then uuidOne else numbered '#' id.toNat

def uuidOf (text : String) : Option Uuid :=
  if text = uuidOne then some 1 else (readNumbered '#' text).map (BitVec.ofNat 128)

theorem uuidOf_text (id : Uuid) : uuidOf (uuidText id) = some id := by
  unfold uuidText
  split
  · rename_i one
    exact one ▸ rfl
  · have other : numbered '#' id.toNat ≠ uuidOne := numbered_ne (by decide)
    rw [uuidOf, if_neg other, readNumbered_same]
    exact congrArg some (BitVec.eq_of_toNat_eq (by simp))

def timeText (at_ : Timestamp) : String :=
  if at_ = 0 then epoch else if 0 ≤ at_ then numbered '+' at_.natAbs else numbered '-' at_.natAbs

def timeOf (text : String) : Option Timestamp :=
  if text = epoch then some 0
  else match readNumbered '+' text with
    | some n => some n
    | none => (readNumbered '-' text).map (fun n => -(n : Int))

theorem timeOf_text (at_ : Timestamp) : timeOf (timeText at_) = some at_ := by
  unfold timeText
  split
  · rename_i zero
    exact zero ▸ rfl
  · split
    · rename_i later
      have other : numbered '+' at_.natAbs ≠ epoch := numbered_ne (by decide)
      rw [timeOf, if_neg other, readNumbered_same]
      exact congrArg some (Int.natAbs_of_nonneg later)
    · rename_i earlier
      have other : numbered '-' at_.natAbs ≠ epoch := numbered_ne (by decide)
      rw [timeOf, if_neg other, readNumbered_other (by decide), readNumbered_same]
      have same : -(at_.natAbs : Int) = at_ := by
        unfold Timestamp at *
        omega
      exact congrArg some same

def claim : MessageEnvelope Unit := .newAt 0 1 "claim.created" () "k"

def written : List (String × Field) :=
  [("envelope_version", .tree (unsigned 1)), ("message_id", .tree (.string uuidOne)),
    ("message_type", .tree (.string "claim.created")), ("schema_version", .tree (unsigned 1)),
    ("correlation_id", .tree (.string uuidOne)), ("idempotency_key", .tree (.string "k")),
    ("created_at", .tree (.string epoch)), ("payload", .tree .null)]

/- A newer producer's rendering: a foreign field, an explicit `null`, no version. -/
def newer : List (String × Field) :=
  ("a_future_field", .tree (.bool true)) :: ("tenant_id", .tree .null) ::
    written.filter (fun entry => entry.1 != "envelope_version")

def newerText : String :=
  "\x7b\"a_future_field\":true,\"tenant_id\":null," ++
  "\"message_id\":\"00000000-0000-0000-0000-000000000001\",\"message_type\":\"claim.created\"," ++
  "\"schema_version\":1,\"correlation_id\":\"00000000-0000-0000-0000-000000000001\"," ++
  "\"idempotency_key\":\"k\",\"created_at\":\"1970-01-01T00:00:00Z\",\"payload\":null\x7d"

/- The compact text of a scalar that needs no escapes. -/
def compactScalar : Field → String
  | .tree .null => "null"
  | .tree (.bool b) => if b then "true" else "false"
  | .tree (.number (.posInt n)) => Nat.repr n.toNat
  | .tree (.string s) => "\"" ++ s ++ "\""
  | _ => ""

def printed (fields : List (String × Field)) : List UInt8 :=
  ("\x7b" ++ ",".intercalate (fields.map (fun field =>
    "\"" ++ field.1 ++ "\":" ++ compactScalar field.2)) ++ "\x7d").toUTF8.toList

@[reducible] def serde : Serde where
  scan bytes :=
    if bytes = newerText.toUTF8.toList then some (.object newer)
    else if bytes = printed written then some (.object written)
    else none
  print := printed
  explain _ _ := "not sampled"
  uuidText := uuidText
  readUuid := uuidOf
  timeText := timeText
  readTime := timeOf

@[reducible] def unitCodec : PayloadCodec Unit where
  write _ := .ok (.tree .null)
  toValue _ := .ok .null
  read field := match field with
    | .tree .null => .ok ()
    | _ => .error .invalidType
  absent := none

attribute [local instance] serde unitCodec

theorem codec_round_trips_newer :
    (claim.encode = .ok (printed written) ∧
      MessageEnvelope.decode (printed written) = .ok claim) ∧
      Serde.scan newerText.toUTF8.toList = some (.object newer) ∧
      MessageEnvelope.decode newerText.toUTF8.toList = .ok claim := by
  have scanned : Serde.scan newerText.toUTF8.toList = some (.object newer) := if_pos rfl
  have back : ReadsBack written := by
    have other : printed written ≠ newerText.toUTF8.toList := by decide +kernel
    exact (if_neg other).trans (if_pos rfl)
  obtain ⟨round, _⟩ :=
    codec_round_trips (T := Unit) ⟨uuidOf_text, timeOf_text⟩ (fun _ => ⟨_, rfl, rfl⟩)
  obtain ⟨fields, wrote, encoded, decoded, variants⟩ := round claim (by decide)
  obtain rfl : written = fields := Except.ok.inj wrote
  refine ⟨⟨encoded, decoded back⟩, scanned, variants _ newer ?_ scanned⟩
  exact .foreign _ _ (.null .tenantId (.unversioned .same) rfl (by decide)) (by decide)

end Sample

end FiduciaMessaging
