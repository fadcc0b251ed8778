import FiduciaMessaging.Codec.RoundTrip
import FiduciaMessaging.Outbox.Steps

/-! From a staged envelope to the consumer: the row's column is read as a `Value`, printed
by the relay and decoded. Writing has no nesting limit and both readers do. -/
namespace FiduciaMessaging

/- A `Value` is its own payload; inside the envelope's object it is read one level down. -/
instance valuePayload : PayloadCodec Value where
  write value := .ok (.tree value)
  toValue value := .ok value
  read field := match field with
    | .tree value => value.read (recursionLimit - 1)
    | .beyond _ => .error .invalidValue
  absent := none

/- The `payload` column of a claimed row, as the driver reads it. -/
def readColumn (stored : Value) : Except ReadError Value := stored.read recursionLimit

/- The tree of an object as a text shows it. -/
def asTrees (fields : List (String × Value)) : List (String × Field) :=
  fields.map (fun field => (field.1, .tree field.2))

variable {fields : List (String × Value)}

theorem depthFields_le {bound : Nat} :
    depthFields fields ≤ bound ↔ ∀ field ∈ fields, field.2.depth ≤ bound := by
  induction fields with
  | nil => simp [depthFields]
  | cons field rest ih => simp [depthFields, ih]

theorem wellFormedFields_iff : WellFormedFields fields ↔
    ∀ field ∈ fields, field.2.WellFormed := by
  induction fields with
  | nil => simp [WellFormedFields]
  | cons field rest ih => simp [WellFormedFields, ih]

theorem integralFields_iff : IntegralFields fields ↔ ∀ field ∈ fields, field.2.Integral := by
  induction fields with
  | nil => simp [IntegralFields]
  | cons field rest ih => simp [IntegralFields, ih]

section Entries

variable [Serde] {envelope : MessageEnvelope Value} {payload : Value}

/-- Apart from the payload only strings and unsigned numbers are written. -/
theorem entry_cases {field : EnvelopeField} {value : Value}
    (written : envelope.entry id payload field = some value) :
    value = payload ∨ (∃ s, value = .string s) ∨ ∃ n, value = unsigned n := by
  cases field with
  | payload => exact .inl (Option.some.inj written).symm
  | envelopeVersion => exact .inr (.inr ⟨_, (Option.some.inj written).symm⟩)
  | schemaVersion => exact .inr (.inr ⟨_, (Option.some.inj written).symm⟩)
  | fencingToken =>
    obtain ⟨token, _, rfl⟩ := Option.map_eq_some_iff.mp written
    exact .inr (.inr ⟨_, rfl⟩)
  | _ =>
    right
    left
    first
    | exact ⟨_, (Option.some.inj written).symm⟩
    | obtain ⟨_, _, rfl⟩ := Option.map_eq_some_iff.mp written
      exact ⟨_, rfl⟩

theorem entries_names : (envelope.entries id payload).map Prod.fst =
    (EnvelopeField.all.filter (fun field => (envelope.entry id payload field).isSome)).map
      EnvelopeField.name := by
  unfold MessageEnvelope.entries
  rw [List.map_filterMap, ← List.filterMap_eq_filter, List.map_filterMap]
  congr 1
  funext field
  cases written : envelope.entry id payload field <;> simp [Option.guard, written]

theorem entries_distinct : ((envelope.entries id payload).map Prod.fst).Nodup := by
  have names : (EnvelopeField.all.map EnvelopeField.name).Nodup := by decide
  rw [entries_names]
  exact names.sublist (List.filter_sublist.map _)

theorem asTrees_entries :
    asTrees (envelope.entries id payload) = envelope.entries Field.tree (.tree payload) := by
  have natural (field : EnvelopeField) :
      envelope.entry Field.tree (.tree payload) field =
        (envelope.entry id payload field).map Field.tree := by
    cases field <;> first | rfl | exact (Option.map_map _ _ _).symm
  unfold asTrees MessageEnvelope.entries
  rw [List.map_filterMap]
  congr 1
  funext field
  rw [natural field, Option.map_map, Option.map_map]
  rfl

/- The object `to_value` makes of the envelope. -/
def stagedFields (envelope : MessageEnvelope Value) : List (String × Value) :=
  SortedMap.ofList (envelope.entries id envelope.payload)

theorem stagedFields_perm : (stagedFields envelope).Perm (envelope.entries id envelope.payload) :=
  SortedMap.ofList_perm entries_distinct

theorem mem_stagedFields {field : String × Value} (member : field ∈ stagedFields envelope) :
    field.2 = envelope.payload ∨ (∃ s, field.2 = .string s) ∨
      ∃ n, field.2 = unsigned n := by
  obtain ⟨_, _, named⟩ := List.mem_filterMap.mp (stagedFields_perm.mem_iff.mp member)
  obtain ⟨value, written, rfl⟩ := Option.map_eq_some_iff.mp named
  exact entry_cases written

theorem payload_staged : ("payload", envelope.payload) ∈ stagedFields envelope := by
  apply stagedFields_perm.mem_iff.mpr
  exact List.mem_filterMap.mpr ⟨.payload, mem_all _, rfl⟩

theorem stagedFields_formed (formed : envelope.payload.WellFormed) :
    (Value.object (stagedFields envelope)).WellFormed := by
  refine ⟨SortedMap.ofList_sorted, wellFormedFields_iff.mpr ?_⟩
  intro field member
  rcases mem_stagedFields member with same | ⟨s, same⟩ | ⟨n, same⟩ <;> rw [same]
  · exact formed
  all_goals exact trivial

theorem stagedFields_integral (integral : envelope.payload.Integral) :
    (Value.object (stagedFields envelope)).Integral := by
  apply integralFields_iff.mpr
  intro field member
  rcases mem_stagedFields member with same | ⟨s, same⟩ | ⟨n, same⟩ <;> rw [same]
  · exact integral
  all_goals exact trivial

/-- The object is one level deeper than the payload. -/
theorem stagedFields_depth :
    (Value.object (stagedFields envelope)).depth = envelope.payload.depth + 1 := by
  have deepest : depthFields (stagedFields envelope) = envelope.payload.depth := by
    apply Nat.le_antisymm
    · apply depthFields_le.mpr
      intro field member
      rcases mem_stagedFields member with same | ⟨s, same⟩ | ⟨n, same⟩ <;> rw [same]
      all_goals exact Nat.zero_le _
    · exact depthFields_le.mp (Nat.le_refl _) _ payload_staged
  change depthFields (stagedFields envelope) + 1 = _
  rw [deepest]

/-- The printed object represents the envelope where the reader can follow the payload. -/
theorem stagedFields_represents (forms : TextForms) (formed : envelope.payload.WellFormed)
    (shallow : envelope.payload.depth ≤ 126) :
    Represents envelope (asTrees (stagedFields envelope)) := by
  have back : PayloadCodec.read (.tree envelope.payload) = .ok envelope.payload := by
    change envelope.payload.read (recursionLimit - 1) = _
    rw [read_eq _ formed _ (by decide)]
    exact if_pos (Nat.lt_succ_of_le shallow)
  have written := written_represents forms back
  rw [← asTrees_entries] at written
  have perm : (asTrees (envelope.entries id envelope.payload)).Perm
      (asTrees (stagedFields envelope)) :=
    (stagedFields_perm.map _).symm
  refine ⟨written.holds.perm perm, ?_⟩
  intro field missing
  exact written.missing field (mt (perm.filterMap _).mem_iff.mp missing)

end Entries

section Staging

variable [External] [Serde] {envelope : MessageEnvelope Value} {record : OutboxRecord}
  {id : Uuid} {subject : String}

theorem fromEnvelope_value (staged : OutboxRecord.fromEnvelope id subject envelope = .ok record) :
    envelope.validate = .ok () ∧ record.payload = .object (stagedFields envelope) := by
  unfold OutboxRecord.fromEnvelope at staged
  cases valid : envelope.validate with
  | error e => simp [valid, bind, Except.bind] at staged
  | ok =>
    simp only [valid, bind, Except.bind, pure, Except.pure, MessageEnvelope.toJsonValue,
      EnvelopeCodec.toJsonValue, PayloadCodec.toValue, Except.mapError, Except.ok.injEq] at staged
    exact ⟨rfl, staged ▸ rfl⟩

/- A text without floats reads as the tree it was printed from. -/
def TextReads : Prop :=
  ∀ fields bytes, (Value.object fields).WellFormed → (Value.object fields).Integral →
    External.toVec (.object fields) = .ok bytes →
      Serde.scan bytes = some (.object (asTrees fields))

/- The row can be claimed, and its message decodes to the envelope. -/
def Delivers (record : OutboxRecord) (envelope : MessageEnvelope Value) : Prop :=
  ∃ claimed bytes, readColumn record.payload = .ok claimed ∧
    OutboxRecord.prepare { record with payload := claimed } = .ok bytes ∧
    MessageEnvelope.decode bytes = .ok envelope

/-- A staged and accepted envelope is delivered exactly when its payload is nested at most
126 deep. -/
theorem staged_delivers_iff (forms : TextForms) (texts : TextReads)
    (formed : envelope.payload.WellFormed) (integral : envelope.payload.Integral)
    (staged : OutboxRecord.fromEnvelope id subject envelope = .ok record)
    (accepted : record.validate = .ok ()) :
    Delivers record envelope ↔ envelope.payload.depth ≤ 126 := by
  obtain ⟨valid, payload⟩ := fromEnvelope_value staged
  have read : readColumn record.payload =
      within (envelope.payload.depth + 1) recursionLimit record.payload := by
    unfold readColumn
    rw [payload, read_eq _ (stagedFields_formed formed) _ (by decide), stagedFields_depth]
  constructor
  · rintro ⟨claimed, bytes, column, _⟩
    rw [read] at column
    unfold within at column
    split at column
    · rename_i shallow
      exact Nat.lt_succ_iff.mp (Nat.lt_of_succ_lt_succ shallow)
    · cases column
  · intro shallow
    obtain ⟨bytes, prepared⟩ := prepare_of_validate accepted
    have written := prepare_bytes prepared
    have within_ : envelope.payload.depth + 1 < recursionLimit :=
      Nat.succ_lt_succ (Nat.lt_succ_of_le shallow)
    refine ⟨record.payload, bytes, read.trans (if_pos within_), prepared, ?_⟩
    rw [payload] at written
    exact decode_represents valid
      (texts _ bytes (stagedFields_formed formed) (stagedFields_integral integral) written)
      (stagedFields_represents forms formed shallow)

end Staging

namespace Sample

mutual

/- The compact text of a tree whose strings need no escapes. -/
def render : Value → String
  | .null => "null"
  | .bool b => if b then "true" else "false"
  | .number (.posInt n) => Nat.repr n.toNat
  | .number (.negInt n) => "-" ++ Nat.repr (-n.toInt).toNat
  | .number (.float _) => "0.0"
  | .string s => "\"" ++ s ++ "\""
  | .array items => "[" ++ ",".intercalate (renderItems items) ++ "]"
  | .object fields => "\x7b" ++ ",".intercalate (renderFields fields) ++ "\x7d"

def renderItems : List Value → List String
  | [] => []
  | item :: rest => render item :: renderItems rest

def renderFields : List (String × Value) → List String
  | [] => []
  | (name, value) :: rest => ("\"" ++ name ++ "\":" ++ render value) :: renderFields rest

end

@[reducible] def renderer : External where
  toVec value := .ok (render value).toUTF8.toList
  parseUuid _ := false
  sha256 _ := []
  debug text := "\"" ++ text ++ "\""

def nested : Nat → Value
  | 0 => .null
  | n + 1 => .array [nested n]

def nestedClaim (depth : Nat) : MessageEnvelope Value :=
  .newAt 0 1 "claim.created" (nested depth) "k"

section Deep

attribute [local instance] serde renderer

def deepRecord : OutboxRecord :=
  .pendingForTenant 1 "fiducia.claims.created.v1" none "k"
    (.object (stagedFields (nestedClaim 127))) 0

theorem nested_plain (depth : Nat) : (nested depth).WellFormed ∧ (nested depth).Integral := by
  induction depth with
  | zero => exact ⟨trivial, trivial⟩
  | succ depth ih => exact ⟨⟨ih.1, trivial⟩, ih.2, trivial⟩

/-- A payload 127 deep is staged and accepted, and its row cannot be claimed. -/
theorem deep_claim_stuck : (nestedClaim 127).payload.WellFormed ∧
    (nestedClaim 127).payload.Integral ∧
    OutboxRecord.fromEnvelope 1 "fiducia.claims.created.v1" (nestedClaim 127) = .ok deepRecord ∧
      deepRecord.validate = .ok () ∧ ¬ Delivers deepRecord (nestedClaim 127) := by
  refine ⟨(nested_plain 127).1, (nested_plain 127).2, rfl, by decide +kernel, ?_⟩
  rintro ⟨claimed, bytes, column, _⟩
  have stuck : (readColumn deepRecord.payload).toBool = false := by decide +kernel
  rw [column] at stuck
  cases stuck

end Deep

/- A writer and a reader of the one sampled row, whose fields are all scalars. -/

def scalarOf : Value → Option (Option (Nat ⊕ String))
  | .null => some none
  | .number (.posInt n) => some (some (.inl n.toNat))
  | .string s => some (some (.inr s))
  | _ => none

def ofScalar : Option (Nat ⊕ String) → Value
  | none => .null
  | some (.inl n) => unsigned n
  | some (.inr s) => .string s

theorem ofScalar_of {value : Value} {scalar : Option (Nat ⊕ String)}
    (read : scalarOf value = some scalar) : value = ofScalar scalar := by
  unfold scalarOf at read
  split at read
  · rw [← Option.some.inj read, ofScalar]
  · rw [← Option.some.inj read, ofScalar, unsigned, UInt64.ofNat_toNat]
  · rw [← Option.some.inj read, ofScalar]
  · cases read

def scalars : List (String × Value) → Option (List (String × Option (Nat ⊕ String)))
  | [] => some []
  | (name, value) :: rest => do
    let scalar ← scalarOf value
    let others ← scalars rest
    return (name, scalar) :: others

theorem scalars_inj {fields : List (String × Value)}
    {read : List (String × Option (Nat ⊕ String))} (scanned : scalars fields = some read) :
    fields = read.map (fun field => (field.1, ofScalar field.2)) := by
  induction fields generalizing read with
  | nil => rw [← Option.some.inj scanned]; rfl
  | cons field rest ih =>
    obtain ⟨scalar, here, scanned⟩ := Option.bind_eq_some_iff.mp scanned
    obtain ⟨others, later, scanned⟩ := Option.bind_eq_some_iff.mp scanned
    rw [← Option.some.inj scanned, List.map_cons, ← ih later, ← ofScalar_of here]

section Flat

attribute [local instance] serde

def flatFields : List (String × Value) := stagedFields (nestedClaim 0)

def flatBytes : List UInt8 := (render (.object flatFields)).toUTF8.toList

@[reducible] def flatWriter : External where
  toVec value := match value with
    | .object fields =>
      if scalars fields = scalars flatFields then .ok flatBytes else .error "not sampled"
    | _ => .error "not sampled"
  parseUuid _ := false
  sha256 _ := []
  debug text := "\"" ++ text ++ "\""

@[reducible] def flatSerde : Serde :=
  { serde with scan := fun bytes =>
      if bytes = flatBytes then some (.object (asTrees flatFields)) else none }

attribute [local instance] flatWriter flatSerde

theorem flat_texts : TextReads := by
  intro fields bytes _ _ written
  change (if scalars fields = scalars flatFields then Except.ok flatBytes
    else .error "not sampled") = .ok bytes at written
  split at written
  · rename_i same
    have known : (scalars flatFields).isSome = true := by decide +kernel
    obtain ⟨read, scanned⟩ := Option.isSome_iff_exists.mp known
    have equal : fields = flatFields :=
      (scalars_inj (same.trans scanned)).trans (scalars_inj scanned).symm
    rw [equal, ← Except.ok.inj written]
    exact if_pos rfl
  · cases written

def flatRecord : OutboxRecord :=
  .pendingForTenant 1 "fiducia.claims.created.v1" none "k" (.object flatFields) 0

theorem staged_delivers_flat : Delivers flatRecord (nestedClaim 0) := by
  have staged : OutboxRecord.fromEnvelope 1 "fiducia.claims.created.v1" (nestedClaim 0) =
      .ok flatRecord := rfl
  have accepted : flatRecord.validate = .ok () := by decide +kernel
  obtain ⟨formed, integral⟩ := nested_plain 0
  exact (staged_delivers_iff ⟨uuidOf_text, timeOf_text⟩ flat_texts formed integral staged
    accepted).mpr (by decide)

end Flat

end Sample

end FiduciaMessaging
