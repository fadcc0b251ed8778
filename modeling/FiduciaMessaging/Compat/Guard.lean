import FiduciaMessaging.Subjects.Wildcards
import FiduciaMessaging.Foundations.Text

/-! The guard of the compat publish path. It keeps the historic subjects, and gives up none
of what protects the subject space. -/
namespace FiduciaMessaging

open Text

inductive CompatEnvelopeError where
  | unsupportedVersion (version : UInt16)
  | missingIdentity
  | json (error : String)
  deriving DecidableEq

def CompatEnvelopeError.toString : CompatEnvelopeError → String
  | .unsupportedVersion version => "unsupported envelope version " ++ Nat.repr version.toNat
  | .missingIdentity => "message_type and source must be non-empty"
  | .json error => error

/-- `transactional::OutboxError`. -/
inductive CompatOutboxError where
  | invalidSubject
  | payloadTooLarge (actual limit : Nat)
  | envelope (error : CompatEnvelopeError)
  | database (error : String)
  | nats (error : String)
  deriving DecidableEq

def CompatOutboxError.toString : CompatOutboxError → String
  | .invalidSubject => "subject must contain non-empty dot tokens and no wildcards, whitespace, " ++
    "or control characters"
  | .payloadTooLarge actual limit =>
    "message payload is " ++ Nat.repr actual ++ " bytes; limit is " ++ Nat.repr limit
  | .envelope error => error.toString
  | .database error => error
  | .nats error => "NATS operation failed: " ++ error

section Guard

variable [External]

def isPublishableSubject (subject : String) : Bool :=
  !isBlank subject.toList &&
    !subject.toList.any (fun c => isWhitespace c || isControl c || c == '*' || c == '>') &&
    (subject.toList.splitOn '.').all (fun token =>
      token != [] && !External.parseUuid (String.ofList token))

def validateCompatPublish (subject : String) (payloadLen : Nat) : Except CompatOutboxError Unit :=
  if !isPublishableSubject subject then .error .invalidSubject
  else if payloadLen > maxMessageBytes then .error (.payloadTooLarge payloadLen maxMessageBytes)
  else .ok ()

end Guard

/- A character that neither matches other subjects nor breaks the protocol line. -/
structure Plain (c : Char) : Prop where
  star : c ≠ '*'
  arrow : c ≠ '>'
  dark : isWhitespace c = false
  printed : isControl c = false

/- A token that stands for a class of messages, in a looser alphabet than `Token`. -/
structure LooseToken [External] (token : List Char) : Prop where
  nonempty : token ≠ []
  plain : ∀ c ∈ token, Plain c
  class_ : External.parseUuid (String.ofList token) = false

theorem plain_iff {c : Char} :
    (isWhitespace c || isControl c || c == '*' || c == '>') = false ↔ Plain c := by
  simp only [Bool.or_eq_false_iff, beq_eq_false_iff_ne]
  constructor
  · rintro ⟨⟨⟨dark, printed⟩, star⟩, arrow⟩
    exact ⟨star, arrow, dark, printed⟩
  · rintro ⟨star, arrow, dark, printed⟩
    exact ⟨⟨⟨dark, printed⟩, star⟩, arrow⟩

theorem plain_dot : Plain '.' := by
  constructor <;> decide

/-- The canonical alphabet is plain. -/
theorem plain_tokenChar {c : Char} (char : tokenChar c = true) : Plain c := by
  have range : c.toNat = 45 ∨ (48 ≤ c.toNat ∧ c.toNat ≤ 57) ∨
      (97 ≤ c.toNat ∧ c.toNat ≤ 122) := by
    rcases tokenChar_iff.mp char with letter | digit | rfl
    · exact .inr (.inr letter)
    · exact .inr (.inl digit)
    · exact .inl rfl
  constructor
  · rintro rfl
    contradiction
  · rintro rfl
    contradiction
  · simp only [isWhitespace, Bool.or_eq_false_iff, Bool.and_eq_false_iff, decide_eq_false_iff_not,
      beq_eq_false_iff_ne]
    omega
  · simp only [isControl, Bool.or_eq_false_iff, Bool.and_eq_false_iff, decide_eq_false_iff_not]
    omega

section Guard

variable [External] {s : String} {n : Nat}

theorem publishable_iff : isPublishableSubject s = true ↔
    isBlank s.toList = false ∧ (∀ c ∈ s.toList, Plain c) ∧
      ∀ token ∈ s.toList.splitOn '.', token ≠ [] ∧
        External.parseUuid (String.ofList token) = false := by
  have chars : (s.toList.any
      (fun c => isWhitespace c || isControl c || c == '*' || c == '>')) = false ↔
      ∀ c ∈ s.toList, Plain c := by
    rw [List.any_eq_false]
    apply forall₂_congr
    intro c _
    rw [Bool.not_eq_true, plain_iff]
  simp only [isPublishableSubject, Bool.and_eq_true, Bool.not_eq_true', chars, List.all_eq_true,
    bne_iff_ne, and_assoc]

theorem validateCompatPublish_ok : validateCompatPublish s n = .ok () ↔
    isPublishableSubject s = true ∧ n ≤ maxMessageBytes := by
  unfold validateCompatPublish
  cases isPublishableSubject s with
  | false => simp
  | true =>
    by_cases large : n > maxMessageBytes
    · simp [large]
    · simp [large, Nat.le_of_not_gt large]

/-- The guard accepts a subject exactly if its tokens are loose ones. -/
theorem publishable_tokens :
    isPublishableSubject s = true ↔ ∀ token ∈ s.toList.splitOn '.', LooseToken token := by
  rw [publishable_iff]
  constructor
  · rintro ⟨_, plain, tokens⟩ token listed
    obtain ⟨nonempty, class_⟩ := tokens token listed
    exact ⟨nonempty, fun c inside => plain c (mem_of_mem_piece listed inside), class_⟩
  · intro loose
    have plain : ∀ c ∈ s.toList, Plain c := by
      intro c inside
      rcases mem_piece inside with dot | ⟨token, listed, here⟩
      · rw [dot]
        exact plain_dot
      · exact (loose token listed).plain c here
    refine ⟨?_, plain, fun token listed =>
      ⟨(loose token listed).nonempty, (loose token listed).class_⟩⟩
    -- the first token has a character, and no character of a token is blank
    obtain ⟨first, listed⟩ := List.exists_mem_of_ne_nil _ (List.splitOn_ne_nil '.' s.toList)
    obtain ⟨c, here⟩ := List.exists_mem_of_ne_nil _ (loose first listed).nonempty
    exact not_blank (mem_of_mem_piece listed here) ((loose first listed).plain c here).dark

theorem identifier_of_refused {token named : String}
    (refused : validateToken token = .error (.identifierInSubject named)) :
    External.parseUuid token = true := by
  unfold validateToken at refused
  split at refused
  · cases refused
  · split at refused
    · cases refused
    · split at refused
      · assumption
      · cases refused

/-- A valid canonical token is a loose one. -/
theorem loose_of_valid {token : String} (valid : validateToken token = .ok ()) :
    LooseToken token.toList := by
  obtain ⟨nonempty, alphabet, _, _, class_⟩ := validateToken_ok.mp valid
  constructor
  · intro empty
    exact nonempty (String.toList_eq_nil_iff.mp empty)
  · intro c inside
    exact plain_tokenChar (alphabet c inside)
  · rwa [String.ofList_toList]

/- The two tokens that the canonical path never validates. -/

theorem loose_root (uuids : ReadsUuids) : LooseToken root.toList := by
  have all : root.toList.all tokenChar = true := by decide +kernel
  have alphabet : ∀ c ∈ root.toList, tokenChar c = true := List.all_eq_true.mp all
  constructor
  · decide +kernel
  · intro c inside
    exact plain_tokenChar (alphabet c inside)
  · rw [String.ofList_toList, uuids root alphabet]
    decide +kernel

omit [External] in
theorem version_not_uuid {version : Nat} : uuidShaped (versionToken version) = false := by
  have undashed : '-' ∉ versionToken version := by
    intro dash
    rcases List.mem_cons.mp dash with impossible | later
    · contradiction
    · have digit := Decimal.isDigit_toDigits _ later
      contradiction
  have odd : isHex 'v' = false := by decide
  have some_odd : (versionToken version).all isHex = false :=
    List.all_eq_false.mpr ⟨'v', List.mem_cons_self, by rw [odd]; exact Bool.false_ne_true⟩
  simp [uuidShaped, List.splitOn_eq_singleton undashed, some_odd]

theorem loose_version (uuids : ReadsUuids) {version : Nat} : LooseToken (versionToken version) := by
  have alphabet : ∀ c ∈ versionToken version, tokenChar c = true := by
    intro c inside
    rcases List.mem_cons.mp inside with rfl | later
    · decide
    · have digit := Decimal.isDigit_toDigits _ later
      simp [tokenChar, digit]
  constructor
  · exact List.cons_ne_nil _ _
  · intro c inside
    exact plain_tokenChar (alphabet c inside)
  · rw [uuids _ (by rwa [String.toList_ofList]), String.toList_ofList]
    exact version_not_uuid

/-- What the canonical guard accepts the compat guard accepts. What the compat guard accepts
has the bounded size and the safe tokens that the canonical path is there for. -/
theorem compat_guard_relaxes (uuids : ReadsUuids) (s : String) (n : Nat) :
    (validateForPublish s n = .ok () → validateCompatPublish s n = .ok ()) ∧
      (validateCompatPublish s n = .ok () → n ≤ maxMessageBytes ∧
        ['.'].intercalate (s.toList.splitOn '.') = s.toList ∧
        ∀ token ∈ s.toList.splitOn '.', token ≠ [] ∧
          (∀ c ∈ token, c ≠ '*' ∧ c ≠ '>' ∧ isWhitespace c = false ∧
            isControl c = false) ∧
          ∀ named, validateToken (String.ofList token) ≠
            .error (.identifierInSubject named)) := by
  constructor
  · intro accepted
    unfold validateForPublish at accepted
    cases parsed : Subject.parse s with
    | error e =>
      rw [parsed] at accepted
      cases accepted
    | ok subject =>
      rw [parsed] at accepted
      obtain ⟨rfl, valid, _⟩ := parse_ok.mp parsed
      have fits : n ≤ maxMessageBytes := by
        by_contra large
        simp [Nat.lt_of_not_le large] at accepted
      apply validateCompatPublish_ok.mpr
      refine ⟨?_, fits⟩
      rw [publishable_tokens, asString_tokens valid]
      intro token listed
      simp only [List.mem_cons, List.not_mem_nil, or_false] at listed
      rcases listed with rfl | rfl | rfl | rfl
      · exact loose_root uuids
      · exact loose_of_valid valid.group
      · exact loose_of_valid valid.event
      · exact loose_version uuids
  · intro accepted
    obtain ⟨publishable, fits⟩ := validateCompatPublish_ok.mp accepted
    refine ⟨fits, List.intercalate_splitOn '.', ?_⟩
    intro token listed
    have loose := publishable_tokens.mp publishable token listed
    refine ⟨loose.nonempty, ?_, ?_⟩
    · intro c inside
      have plain := loose.plain c inside
      exact ⟨plain.star, plain.arrow, plain.dark, plain.printed⟩
    · intro named refused
      have identifier := identifier_of_refused refused
      rw [loose.class_] at identifier
      cases identifier

end Guard

section Sample

attribute [local instance] hexReader

theorem compat_guard_relaxes_versions :
    validateCompatPublish "fiducia.executions.completed.v1" 3 = .ok () ∧
      validateForPublish "legacy-subject" 3 ≠ .ok () ∧
      validateCompatPublish "legacy-subject" 3 = .ok () := by
  refine ⟨(compat_guard_relaxes (fun _ _ => rfl) _ _).1 ?_, ?_, ?_⟩
  · decide +kernel
  · decide +kernel
  · decide +kernel

end Sample

end FiduciaMessaging
