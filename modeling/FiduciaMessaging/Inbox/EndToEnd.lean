import FiduciaMessaging.Outbox.Delivery
import FiduciaMessaging.Inbox.Steps

/-! The outbox and the per-consumer inbox composed through the broker's log. The
outbox keeps one row per business key and the inbox one claim per message id; a
staged row never changes, so every copy of a business key has one message id. -/
namespace FiduciaMessaging

open Transactions Runs

/- The inbox alone: the claim a transaction was told to process for stays with it. -/

section PgInbox

variable {T : Type} {s s' : PgInbox T} {a : InboxAction T} {tx tx' : Nat} {consumer : String}
  {envelope envelope' : MessageEnvelope T}

structure Exclusive (s : PgInbox T) : Prop where
  unique : Unique Claim.key s.claims
  processed : ∀ tx consumer (envelope : MessageEnvelope T),
    .returned tx consumer envelope (.ok .process) ∈ s.trace →
      s.sessions tx = some .rolledBack ∨
      ∃ v ∈ s.claims, v.row.key = (consumer, envelope.messageId) ∧ v.writer = tx

theorem exclusive_initial (now : Timestamp) : Exclusive (.initial T now) where
  unique := List.nodup_nil
  processed := by
    intro tx consumer envelope member
    cases member

theorem exclusive_step (exclusive : Exclusive s) (keeps : a.purges = false) (taken : s.Steps a s') :
    Exclusive s' where
  unique := taken.unique exclusive.unique
  processed := by
    intro tx consumer envelope member
    rcases taken.processed member with old | ⟨_, claimed⟩
    · rcases exclusive.processed tx consumer envelope old with ended |
        ⟨v, inside, same, writer⟩
      · exact .inl (taken.rolledBack ended)
      · obtain ⟨v', inside', row, writer', _⟩ | ⟨_, ended⟩ |
            ⟨⟨olderThan, rfl⟩, _⟩ :=
          taken.image inside
        · exact .inr ⟨v', inside', row ▸ same, writer' ▸ writer⟩
        · exact .inl (writer ▸ ended)
        · cases keeps
    · exact .inr claimed

/-- Without purges one transaction at most commits after being told to process a message. -/
theorem Exclusive.process_once (exclusive : Exclusive s)
    (told : .returned tx consumer envelope (.ok .process) ∈ s.trace)
    (told' : .returned tx' consumer envelope' (.ok .process) ∈ s.trace)
    (committed : s.sessions tx = some .committed) (committed' : s.sessions tx' = some .committed)
    (same : envelope.messageId = envelope'.messageId) : tx = tx' := by
  have claim {tx} {envelope : MessageEnvelope T}
      (told : .returned tx consumer envelope (.ok .process) ∈ s.trace)
      (committed : s.sessions tx = some .committed) :
      ∃ v ∈ s.claims, v.row.key = (consumer, envelope.messageId) ∧ v.writer = tx := by
    refine (exclusive.processed tx consumer envelope told).resolve_left ?_
    rw [committed]
    simp
  obtain ⟨v, inside, key, rfl⟩ := claim told committed
  obtain ⟨v', inside', key', rfl⟩ := claim told' committed'
  rw [exclusive.unique.same inside inside' (key.trans (same ▸ key'.symm))]

end PgInbox

/- The database and the broker between them. -/
structure Pipeline (T : Type) where
  outbox : System
  inbox : PgInbox T

def Pipeline.initial (T : Type) (now : Timestamp) : Pipeline T := ⟨.initial now, .initial T now⟩

inductive PipelineAction (T : Type) where
  | outbox (action : Action)
  | inbox (action : InboxAction T)
  | deliver (tx : Nat) (consumer : String) (entry : Entry) (fault : Option String)

section Pipeline

variable [External] {T : Type} [EnvelopeCodec T]

/- A stored message is delivered whenever the broker likes; `begin` takes what it decodes
to, and what does not decode is dropped. Both halves read one clock. -/
def Pipeline.step (w : Pipeline T) : PipelineAction T → Option (Pipeline T)
  | .outbox (.tick elapsed) => (w.outbox.step (.tick elapsed)).bind fun outbox =>
    (w.inbox.step (.tick elapsed)).map fun inbox => ⟨outbox, inbox⟩
  | .outbox action => (w.outbox.step action).map fun outbox => { w with outbox := outbox }
  | .inbox (.tick _) => none
  | .inbox (.beginInsert _ _ _ _) => none
  | .inbox action => (w.inbox.step action).map fun inbox => { w with inbox := inbox }
  | .deliver tx consumer entry fault =>
    if entry ∈ w.outbox.log then
      match MessageEnvelope.decode (T := T) entry.message.payload with
      | .error _ => some w
      | .ok envelope => (w.inbox.step (.beginInsert tx consumer envelope fault)).map
          fun inbox => { w with inbox := inbox }
    else none

/- A record staged from an envelope its bytes decode back to. -/
def StagedFrom (T : Type) [EnvelopeCodec T] (record : OutboxRecord) : Prop :=
  ∃ id subject, ∃ envelope : MessageEnvelope T,
    OutboxRecord.fromEnvelope id subject envelope = .ok record ∧
      ∀ bytes, External.toVec record.payload = .ok bytes →
        MessageEnvelope.decode bytes = .ok envelope

/- Producers stage from envelopes, and no purge runs. -/
def PipelineAction.Allowed : PipelineAction T → Prop
  | .outbox action => action.purges = false ∧
    ∀ record startedAt, action = .enqueue record startedAt → StagedFrom T record
  | .inbox action => action.purges = false
  | .deliver _ _ _ _ => True

def Pipeline.Commits (w : Pipeline T) (tx : Nat) (consumer : String) (tenantId : Option Uuid)
    (idempotencyKey : String) : Prop :=
  w.inbox.sessions tx = some .committed ∧
    ∃ envelope, .returned tx consumer envelope (.ok .process) ∈ w.inbox.trace ∧
      envelope.tenantId = tenantId ∧ envelope.idempotencyKey = idempotencyKey

def Pipeline.EffectivelyOnce (w : Pipeline T) : Prop :=
  ∀ consumer tenantId idempotencyKey tx tx', w.Commits tx consumer tenantId idempotencyKey →
    w.Commits tx' consumer tenantId idempotencyKey → tx = tx'

/- The envelope a row was staged from. -/
def Staged.Carries (staged : Staged) (envelope : MessageEnvelope T) : Prop :=
  staged.tenantId = envelope.tenantId ∧ staged.idempotencyKey = envelope.idempotencyKey ∧
    ∀ bytes, External.toVec staged.payload = .ok bytes →
      MessageEnvelope.decode bytes = .ok envelope

/- The envelope a consumer gets out of a copy of the row's message. -/
def Staged.Yields (staged : Staged) (envelope : MessageEnvelope T) : Prop :=
  staged.Carries envelope ∧ ∃ bytes, External.toVec staged.payload = .ok bytes

variable {w w' : Pipeline T} {a : PipelineAction T}

theorem StagedFrom.carries {record : OutboxRecord} (staged : StagedFrom T record) :
    ∃ envelope : MessageEnvelope T, record.toStaged.Carries envelope := by
  obtain ⟨id, subject, envelope, made, decodes⟩ := staged
  have form : record.tenantId = envelope.tenantId ∧
      record.idempotencyKey = envelope.idempotencyKey := by
    simp only [OutboxRecord.fromEnvelope, bind, Except.bind, pure, Except.pure] at made
    split at made
    · contradiction
    · split at made
      · contradiction
      · rw [← Except.ok.inj made]
        exact ⟨rfl, rfl⟩
  exact ⟨envelope, form.1, form.2, decodes⟩

/-- The bytes of a row decode to one envelope only. -/
theorem Staged.Yields.unique {staged : Staged} {envelope envelope' : MessageEnvelope T}
    (first : staged.Yields envelope) (second : staged.Yields envelope') : envelope = envelope' := by
  obtain ⟨bytes, written⟩ := first.2
  have same := (first.1.2.2 bytes written).symm.trans (second.1.2.2 bytes written)
  exact Except.ok.inj same

theorem pipeline_cases (taken : w.step a = some w') :
    (∃ b, a = .outbox b ∧ w.outbox.step b = some w'.outbox ∧
      (w'.inbox = w.inbox ∨ ∃ elapsed, w.inbox.step (.tick elapsed) = some w'.inbox)) ∨
    (∃ b, a = .inbox b ∧ w'.outbox = w.outbox ∧ w.inbox.step b = some w'.inbox ∧
      ∀ tx consumer envelope fault, b ≠ .beginInsert tx consumer envelope fault) ∨
    (∃ tx consumer entry fault, a = .deliver tx consumer entry fault ∧ w'.outbox = w.outbox ∧
      entry ∈ w.outbox.log ∧ (w'.inbox = w.inbox ∨ ∃ envelope,
        MessageEnvelope.decode (T := T) entry.message.payload = .ok envelope ∧
          w.inbox.step (.beginInsert tx consumer envelope fault) = some w'.inbox)) := by
  unfold Pipeline.step at taken
  split at taken
  · rename_i elapsed
    obtain ⟨outbox, moved, rest⟩ := Option.bind_eq_some_iff.mp taken
    obtain ⟨inbox, ticked, rfl⟩ := Option.map_eq_some_iff.mp rest
    exact .inl ⟨_, rfl, moved, .inr ⟨elapsed, ticked⟩⟩
  · obtain ⟨outbox, moved, rfl⟩ := Option.map_eq_some_iff.mp taken
    exact .inl ⟨_, rfl, moved, .inl rfl⟩
  · contradiction
  · contradiction
  · rename_i b _ other
    obtain ⟨inbox, moved, rfl⟩ := Option.map_eq_some_iff.mp taken
    exact .inr (.inl ⟨b, rfl, rfl, moved, other⟩)
  · rename_i tx consumer entry fault
    split at taken
    · rename_i stored
      split at taken
      · exact .inr (.inr ⟨tx, consumer, entry, fault, rfl, Option.some.inj taken ▸ rfl, stored,
          .inl (Option.some.inj taken ▸ rfl)⟩)
      · rename_i envelope decoded
        obtain ⟨inbox, moved, rfl⟩ := Option.map_eq_some_iff.mp taken
        exact .inr (.inr ⟨tx, consumer, entry, fault, rfl, rfl, stored,
          .inr ⟨envelope, decoded, moved⟩⟩)
    · contradiction

theorem outbox_runs (reached : Reaches Pipeline.step (fun _ a => a.Allowed) w w') :
    Reaches System.step (fun _ b => (PipelineAction.outbox (T := T) b).Allowed) w.outbox
      w'.outbox := by
  refine reached.component Pipeline.outbox ?_
  intro x a y allowed taken
  rcases pipeline_cases taken with ⟨b, rfl, moved, _⟩ | ⟨b, _, same, _⟩ |
    ⟨_, _, _, _, _, same, _⟩
  · exact .inr ⟨b, allowed, moved⟩
  · exact .inl same
  · exact .inl same

theorem inbox_runs (reached : Reaches Pipeline.step (fun _ a => a.Allowed) w w') :
    Reaches PgInbox.step (fun _ b => b.purges = false) w.inbox w'.inbox := by
  refine reached.component Pipeline.inbox ?_
  intro x a y allowed taken
  rcases pipeline_cases taken with ⟨b, _, _, same | ⟨elapsed, ticked⟩⟩ |
    ⟨b, rfl, _, moved, _⟩ |
    ⟨tx, consumer, entry, fault, _, _, _, same | ⟨envelope, _, moved⟩⟩
  · exact .inl same
  · exact .inr ⟨_, rfl, ticked⟩
  · exact .inr ⟨b, allowed, moved⟩
  · exact .inl same
  · exact .inr ⟨_, rfl, moved⟩

/- What the composition adds to the invariants of its halves. -/
structure Sourced (w : Pipeline T) : Prop where
  rows : ∀ row ∈ w.outbox.table, ∃ envelope : MessageEnvelope T, row.toStaged.Carries envelope
  processed : ∀ tx consumer envelope, .returned tx consumer envelope (.ok .process) ∈
    w.inbox.trace →
    ∃ row ∈ w.outbox.table, row.toStaged.Yields envelope

theorem sourced_initial (now : Timestamp) : Sourced (.initial T now) where
  rows := by
    intro row member
    cases member
  processed := by
    intro tx consumer envelope member
    cases member

/-- What a consumer decodes from a stored message comes from a row. -/
theorem Sourced.yields (sourced : Sourced w) (carried : Carried w.outbox) {entry : Entry}
    (logged : entry ∈ w.outbox.log) {envelope : MessageEnvelope T}
    (decoded : MessageEnvelope.decode entry.message.payload = .ok envelope) :
    ∃ row ∈ w.outbox.table, row.toStaged.Yields envelope := by
  obtain ⟨row, inside, _, _, written⟩ := carried.sent _ (carried.logged entry logged)
  obtain ⟨origin, carries⟩ := sourced.rows row inside
  have same := Except.ok.inj ((carries.2.2 _ written).symm.trans decoded)
  exact ⟨row, inside, same ▸ carries, _, written⟩

theorem sourced_step (tracked : Tracked w.outbox) (carried : Carried w.outbox) (sourced : Sourced w)
    (allowed : a.Allowed) (taken : w.step a = some w') : Sourced w' := by
  have kept (same : w'.outbox = w.outbox) (envelopes : ∀ tx consumer envelope,
      .returned tx consumer envelope (.ok .process) ∈ w'.inbox.trace →
        .returned tx consumer envelope (.ok .process) ∈ w.inbox.trace ∨
          ∃ row ∈ w.outbox.table, row.toStaged.Yields envelope) : Sourced w' := by
    refine ⟨same ▸ sourced.rows, ?_⟩
    intro tx consumer envelope member
    rw [same]
    rcases envelopes tx consumer envelope member with old | found
    · exact sourced.processed tx consumer envelope old
    · exact found
  rcases pipeline_cases taken with ⟨b, rfl, moved, clock⟩ | ⟨b, rfl, same, moved, other⟩ |
    ⟨tx, consumer, entry, fault, rfl, same, logged, unchanged | ⟨envelope, decoded, moved⟩⟩
  · constructor
    · intro row' member
      obtain ⟨row, inside, rowMoved⟩ | ⟨record, startedAt, enqueued, rfl, _⟩ :=
        row_origin tracked.apart moved member
      · rw [rowMoved.toStaged]
        exact sourced.rows row inside
      · exact (allowed.2 record startedAt enqueued).carries
    · intro tx consumer envelope member
      have old : .returned tx consumer envelope (.ok .process) ∈ w.inbox.trace := by
        rcases clock with same | ⟨elapsed, ticked⟩
        · exact same ▸ member
        · exact ((PgInbox.steps_of_step ticked).processed member).resolve_right (by simp)
      obtain ⟨row, inside, yields⟩ := sourced.processed tx consumer envelope old
      obtain ⟨row', inside', staged⟩ :=
        staged_stays tracked allowed.1 moved ⟨row, inside, rfl⟩
      exact ⟨row', inside', staged ▸ yields⟩
  · apply kept same
    intro tx consumer envelope member
    refine .inl (((PgInbox.steps_of_step moved).processed member).resolve_right ?_)
    rintro ⟨begins, _⟩
    exact other _ _ _ _ begins
  · apply kept same
    intro tx' consumer' envelope' member
    exact .inl (unchanged ▸ member)
  · apply kept same
    intro tx' consumer' envelope' member
    refine ((PgInbox.steps_of_step moved).processed member).imp_right ?_
    rintro ⟨begins, _⟩
    obtain ⟨_, _, rfl, _⟩ := InboxAction.beginInsert.inj begins
    exact sourced.yields carried logged decoded

/-- Along any interleaving of producers, relays, broker and consumers, for every consumer
and every business key at most one transaction told to process it commits. -/
theorem effectively_once {now : Timestamp}
    (reached : Reaches Pipeline.step (fun _ a => a.Allowed) (.initial T now) w) :
    w.EffectivelyOnce := by
  have tracked {x : Pipeline T} (before : Reaches Pipeline.step (fun _ a => a.Allowed)
      (.initial T now) x) : Tracked x.outbox :=
    tracked_of_reaches (tracked_initial now) (outbox_runs before)
  have carried {x : Pipeline T} (before : Reaches Pipeline.step (fun _ a => a.Allowed)
      (.initial T now) x) : Carried x.outbox :=
    carried_of_reaches (fun _ _ allowed => allowed.1) (outbox_runs before)
  have sourced : Sourced w := reached.invariant_given Sourced
    (fun _ before => And.intro (tracked before) (carried before)) (sourced_initial now)
    (fun _ _ _ known before allowed taken => sourced_step known.1 known.2 before allowed taken)
  have exclusive : Exclusive w.inbox := (inbox_runs reached).invariant Exclusive
    (exclusive_initial now)
    (fun _ _ _ before keeps taken => exclusive_step before keeps (PgInbox.steps_of_step taken))
  rintro consumer _ _ tx tx' ⟨committed, envelope, told, rfl, rfl⟩
    ⟨committed', envelope', told', tenant, key⟩
  obtain ⟨row, inside, yields⟩ := sourced.processed tx consumer envelope told
  obtain ⟨row', inside', yields'⟩ := sourced.processed tx' consumer envelope' told'
  have clash : row.toStaged.conflicts row'.toStaged = true := by
    simp [Staged.conflicts, yields.1.1, yields.1.2.1, yields'.1.1, yields'.1.2.1, tenant, key]
  obtain rfl := (tracked reached).same_row inside inside' clash
  have same := yields.unique yields'
  exact exclusive.process_once told told' committed committed'
    (congrArg MessageEnvelope.messageId same)

end Pipeline

/- One order of tenant 1, staged twice, stored twice and delivered twice. -/

namespace Sample

def orderJson : Value :=
  .object [("correlation_id", .string "00000000-0000-0000-0000-00000000002a"),
    ("created_at", .string "1970-01-01T00:00:00Z"), ("envelope_version", .number (.posInt 1)),
    ("idempotency_key", .string "order-1"),
    ("message_id", .string "00000000-0000-0000-0000-00000000002a"),
    ("message_type", .string "order.created"), ("payload", .null),
    ("schema_version", .number (.posInt 1)),
    ("tenant_id", .string "00000000-0000-0000-0000-000000000001")]

/- Numbers, and strings that need no escape. -/
def scalarText : Value → Option String
  | .null => some "null"
  | .string text => some ("\"" ++ text ++ "\"")
  | .number (.posInt n) => some (Nat.repr n.toNat)
  | _ => none

def objectText (fields : List (String × Value)) : Option String :=
  (fields.mapM (fun field => (scalarText field.2).map ("\"" ++ field.1 ++ "\":" ++ ·))).map
    (fun texts => "\x7b" ++ ",".intercalate texts ++ "\x7d")

@[reducible] def jsonExternal : External where
  toVec value := match value with
    | .object fields => match objectText fields with
      | some text => .ok text.toUTF8.data.toList
      | none => .error "not sampled"
    | _ => .error "not sampled"
  parseUuid _ := false
  sha256 _ := [90, 183, 84, 124, 211, 242, 249, 52, 35, 241, 88, 87, 65, 42, 2, 120,
    36, 191, 8, 147, 198, 36, 182, 64, 57, 63, 6, 240, 76, 165, 246, 186]
  debug text := "\"" ++ text ++ "\""

attribute [local instance] jsonExternal

def orderBytes : List UInt8 := (match External.toVec orderJson with
  | .ok bytes => bytes
  | .error _ => [])

@[reducible] def orderCodec : EnvelopeCodec Unit where
  toJsonValue envelope := if envelope = tenantOrder 1 then .ok orderJson else .error "not sampled"
  fromSlice bytes := if bytes = orderBytes then .ok (tenantOrder 1) else .error "not sampled"

attribute [local instance] orderCodec

def orderRecord (id : Uuid) : OutboxRecord :=
  .pendingForTenant id "fiducia.job.created.v1" (some 1) "order-1" orderJson 0

def orderMessage : PublishedMessage := (orderRecord 1).message orderBytes

def orderRun : List (PipelineAction Unit) :=
  [.outbox (.enqueue (orderRecord 1) 0), .outbox (.enqueue (orderRecord 2) 0),
    .outbox (.claim 7 .new plan .ok), .outbox (.database 7 .ok 0), .outbox (.publish 7),
    .outbox (.append orderMessage), .outbox (.append orderMessage),
    .inbox (.start 1), .deliver 1 "billing" ⟨orderMessage, 0⟩ none,
    .inbox (.markProcessed 1 "billing" 42), .inbox (.commit 1),
    .inbox (.start 2), .deliver 2 "billing" ⟨orderMessage, 0⟩ none,
    .inbox (.beginReadBack 2 none), .inbox (.commit 2)]

theorem orderRecord_staged (id : Uuid) : StagedFrom Unit (orderRecord id) := by
  refine ⟨id, "fiducia.job.created.v1", tenantOrder 1, rfl, ?_⟩
  intro bytes written
  have same : bytes = orderBytes := by
    unfold orderBytes
    rw [show External.toVec orderJson = .ok bytes from written]
  have sliced : EnvelopeCodec.fromSlice (T := Unit) orderBytes = .ok (tenantOrder 1) := if_pos rfl
  have valid : (tenantOrder 1).validate = .ok () := rfl
  rw [same, MessageEnvelope.decode, sliced, Except.mapError]
  simp only [bind, Except.bind, valid]
  rfl

theorem orderRun_allowed : ∀ a ∈ orderRun, a.Allowed := by
  intro a member
  simp only [orderRun, List.mem_cons, List.not_mem_nil, or_false] at member
  rcases member with rfl | rfl | rfl | rfl | rfl | rfl | rfl | rfl | rfl | rfl | rfl | rfl | rfl |
    rfl | rfl
  all_goals first
    | exact trivial
    | rfl
    | refine ⟨rfl, ?_⟩
      intro record startedAt same
      cases same
  all_goals exact orderRecord_staged _

theorem orderRun_ends : (run Pipeline.step (.initial Unit 0) orderRun).map
    (fun w => (w.inbox.trace, w.inbox.sessions 1, w.outbox.log.length)) =
      some ([.claimed 1 ⟨"billing", 42, some 1, 0⟩,
        .returned 1 "billing" (tenantOrder 1) (.ok .process), .committed 1,
        .conflicted 2 "billing" (tenantOrder 1),
        .returned 2 "billing" (tenantOrder 1) (.ok .duplicate), .committed 2],
        some .committed, 2) := by
  decide +kernel

end Sample

section Sample

open Sample

attribute [local instance] jsonExternal orderCodec

theorem effectively_once_redelivered :
    ∃ w, run Pipeline.step (.initial Unit 0) orderRun = some w ∧
    w.Commits 1 "billing" (some 1) "order-1" ∧ w.EffectivelyOnce := by
  obtain ⟨w, taken, ends⟩ := Option.map_eq_some_iff.mp orderRun_ends
  obtain ⟨trace, rest⟩ := Prod.mk.inj ends
  refine ⟨w, taken, ⟨(Prod.mk.inj rest).1, tenantOrder 1, ?_, rfl, rfl⟩, ?_⟩
  · rw [trace]
    simp
  · exact effectively_once (reaches_of_run _ _ taken (fun _ => orderRun_allowed))

end Sample

end FiduciaMessaging
