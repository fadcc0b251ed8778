import FiduciaMessaging.Envelope

/-! The consumer's gate: what is checked before the effect that a message drives. -/
namespace FiduciaMessaging

/- The errors of the gate, from `MessagingError`. -/
inductive GateError where
  | missingFencingToken (messageType : String)
  | expired (expiredAt : Timestamp)
  deriving DecidableEq

/- `showTime` is how a time is displayed. -/
def GateError.toString (showTime : Timestamp → String) : GateError → String
  | .missingFencingToken messageType =>
    "message '" ++ messageType ++ "' authorizes an external effect but carries no fencing token"
  | .expired expiredAt => "message expired at " ++ showTime expiredAt

variable {T : Type} {envelope : MessageEnvelope T} {now : Timestamp} {requireFencing : Bool}

def MessageEnvelope.requireFencingToken (envelope : MessageEnvelope T) : Except GateError UInt64 :=
  match envelope.fencingToken with
  | some token => .ok token
  | none => .error (.missingFencingToken envelope.messageType)

def MessageEnvelope.isExpired (envelope : MessageEnvelope T) (now : Timestamp) : Bool :=
  envelope.expiresAt.any (fun expiresAt => decide (expiresAt ≤ now))

def MessageEnvelope.ensureConsumable (envelope : MessageEnvelope T) (now : Timestamp)
    (requireFencing : Bool) : Except GateError (Option UInt64) :=
  match envelope.expiresAt.filter (fun expiresAt => decide (expiresAt ≤ now)) with
  | some expiresAt => .error (.expired expiresAt)
  | none =>
    if requireFencing then envelope.requireFencingToken.map some
    else .ok none

/-- What a handler is let through with: the token where one is required, and nothing else. -/
def MessageEnvelope.Authorizes (envelope : MessageEnvelope T) (requireFencing : Bool)
    (token : Option UInt64) : Prop :=
  if requireFencing then ∃ t, envelope.fencingToken = some t ∧ token = some t else token = none

/-- The gate opens before the deadline only, with what the envelope authorizes. -/
theorem ensureConsumable_ok {token : Option UInt64} :
    envelope.ensureConsumable now requireFencing = .ok token ↔
      envelope.isExpired now = false ∧ envelope.Authorizes requireFencing token := by
  unfold MessageEnvelope.ensureConsumable MessageEnvelope.isExpired MessageEnvelope.Authorizes
  split
  · rename_i expiresAt passed
    obtain ⟨deadline, past⟩ := Option.filter_eq_some_iff.mp passed
    simp [deadline, of_decide_eq_true past]
  · rename_i open_
    have early : envelope.expiresAt.any (fun expiresAt => decide (expiresAt ≤ now)) = false := by
      apply Bool.eq_false_iff.mpr
      intro past
      obtain ⟨expiresAt, deadline, passed⟩ := (Option.any_eq_true _ _).mp past
      exact Option.filter_eq_none_iff.mp open_ expiresAt deadline passed
    rw [early]
    cases requireFencing with
    | false => simp [eq_comm]
    | true =>
      cases carried : envelope.fencingToken with
      | none => simp [MessageEnvelope.requireFencingToken, carried, Except.map]
      | some t => simp [MessageEnvelope.requireFencingToken, carried, Except.map, eq_comm]

end FiduciaMessaging
