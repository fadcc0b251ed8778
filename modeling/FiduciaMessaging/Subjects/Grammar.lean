import FiduciaMessaging.Subjects
import FiduciaMessaging.Foundations.Decimal

/-! The grammar of canonical subjects, and that parsing inverts rendering on it. -/
namespace FiduciaMessaging

open Nat

def isHex (c : Char) : Bool := c.isDigit || ('a' ≤ c && c ≤ 'f')

/- The two spellings of a UUID over the token alphabet: 32 digits, or 8-4-4-4-12. -/
def uuidShaped (token : List Char) : Bool :=
  (token.length == 32 && token.all isHex) ||
    ((token.splitOn '-').map List.length == [8, 4, 4, 4, 12] &&
      (token.splitOn '-').all (fun piece => piece.all isHex))

/- A group or event token. -/
structure Token (token : String) : Prop where
  nonempty : token ≠ ""
  alphabet : ∀ c ∈ token.toList, ('a' ≤ c ∧ c ≤ 'z') ∨
    ('0' ≤ c ∧ c ≤ '9') ∨ c = '-'
  first : token.toList.head? ≠ some '-'
  last : token.toList.getLast? ≠ some '-'
  class_ : uuidShaped token.toList = false

/- A decimal numeral without sign or leading zero, of a value that fits `u32`. -/
structure Numeral (numeral : String) : Prop where
  nonempty : numeral ≠ ""
  digits : ∀ c ∈ numeral.toList, '0' ≤ c ∧ c ≤ '9'
  first : numeral.toList.head? ≠ some '0'
  positive : 1 ≤ ofDigitChars 10 numeral.toList 0
  bounded : ofDigitChars 10 numeral.toList 0 < 2 ^ 32

def Canonical (s : String) : Prop :=
  ∃ group event numeral, s = "fiducia." ++ group ++ "." ++ event ++ ".v" ++ numeral ∧
    Token group ∧ Token event ∧ Numeral numeral

/- What `Subject::new` has checked. -/
structure Subject.Valid [External] (subject : Subject) : Prop where
  group : validateToken subject.group = .ok ()
  event : validateToken subject.event = .ok ()
  positive : 1 ≤ subject.version

theorem isLower_range {c : Char} : c.isLower = true ↔ 'a' ≤ c ∧ c ≤ 'z' := by
  change (decide ('a' ≤ c) && decide (c ≤ 'z')) = true ↔ _
  rw [Bool.and_eq_true, decide_eq_true_iff, decide_eq_true_iff]

theorem isDigit_range {c : Char} : c.isDigit = true ↔ '0' ≤ c ∧ c ≤ '9' := by
  simp only [Char.isDigit, Bool.and_eq_true, decide_eq_true_eq]
  rfl

theorem tokenChar_iff {c : Char} :
    tokenChar c = true ↔ ('a' ≤ c ∧ c ≤ 'z') ∨ ('0' ≤ c ∧ c ≤ '9') ∨ c = '-' := by
  simp only [tokenChar, isLower_range, isDigit_range, Bool.or_eq_true, beq_iff_eq, or_assoc]

theorem undotted_digits {n : Nat} : '.' ∉ toDigits 10 n := by
  intro dot
  have digit := Decimal.isDigit_toDigits _ dot
  contradiction

theorem undotted_version {n : Nat} : '.' ∉ versionToken n := by
  intro dot
  rcases List.mem_cons.mp dot with impossible | later
  · contradiction
  · exact undotted_digits later

/- The numeral reader, without the sign it also takes. -/

theorem digitValue_eq {c : Char} (digit : c.isDigit = true) :
    digitValue c = some (c.toNat - '0'.toNat) := if_pos digit

def foldDigit (value : Nat) (c : Char) : Option Nat := do
  let digit ← digitValue c
  if value * 10 + digit < 2 ^ 32 then some (value * 10 + digit) else none

theorem foldDigits_some {digits : List Char} {value : Nat}
    (all : ∀ c ∈ digits, c.isDigit = true)
    (fits : ofDigitChars 10 digits value < 2 ^ 32) :
    digits.foldlM foldDigit value = some (ofDigitChars 10 digits value) := by
  induction digits generalizing value with
  | nil => rw [ofDigitChars_nil]; rfl
  | cons c digits ih =>
    rw [ofDigitChars_cons, Nat.mul_comm] at fits ⊢
    have grows := Decimal.le_ofDigitChars (value * 10 + (c.toNat - '0'.toNat)) digits
    have step : foldDigit value c = some (value * 10 + (c.toNat - '0'.toNat)) := by
      unfold foldDigit
      rw [digitValue_eq (all c List.mem_cons_self)]
      exact if_pos (Nat.lt_of_le_of_lt grows fits)
    rw [List.foldlM_cons, step]
    exact ih (fun d later => all d (List.mem_cons_of_mem c later)) fits

theorem foldDigits_lt {digits : List Char} {value result : Nat} (below : value < 2 ^ 32)
    (read : digits.foldlM foldDigit value = some result) : result < 2 ^ 32 := by
  induction digits generalizing value with
  | nil => exact Option.some.inj read ▸ below
  | cons c digits ih =>
    rw [List.foldlM_cons] at read
    obtain ⟨next, stepped, rest⟩ := Option.bind_eq_some_iff.mp read
    obtain ⟨digit, _, fits⟩ := Option.bind_eq_some_iff.mp stepped
    split at fits
    · rename_i small
      exact ih (Option.some.inj fits ▸ small) rest
    · cases fits

theorem parseU32_toDigits {n : Nat} (fits : n < 2 ^ 32) : parseU32 (toDigits 10 n) = some n := by
  have all := Decimal.isDigit_toDigits (n := n)
  have value := ofDigitChars_ten_toDigits (n := n)
  have nonempty := toDigits_ne_nil (n := n) (b := 10)
  generalize toDigits 10 n = digits at all value nonempty
  cases digits with
  | nil => exact absurd rfl nonempty
  | cons c digits =>
    have unsigned : c ≠ '+' := by
      rintro rfl
      have digit := all _ List.mem_cons_self
      contradiction
    unfold parseU32
    split
    · rename_i rest same
      exact absurd (List.cons.inj same).1 unsigned
    · rw [if_neg nonempty]
      rw [← value] at fits ⊢
      exact foldDigits_some all fits

theorem parseU32_lt {digits : List Char} {n : Nat} (read : parseU32 digits = some n) :
    n < 2 ^ 32 := by
  have bounded (unsigned : List Char)
      (folded : (if unsigned = [] then none else unsigned.foldlM foldDigit 0) = some n) :
      n < 2 ^ 32 := by
    split at folded
    · cases folded
    · exact foldDigits_lt (by decide) folded
  exact bounded _ read

section Parse

variable [External] {group event : String} {version : Nat} {subject : Subject} {s : String}

theorem validateToken_ok {token : String} : validateToken token = .ok () ↔
    token ≠ "" ∧ (∀ c ∈ token.toList, tokenChar c = true) ∧
      token.toList.head? ≠ some '-' ∧
      token.toList.getLast? ≠ some '-' ∧ External.parseUuid token = false := by
  unfold validateToken
  split
  · rename_i empty
    simp [empty]
  · rename_i nonempty
    split
    · rename_i bad
      simp only [Bool.or_eq_true, Bool.not_eq_true', List.all_eq_false, beq_iff_eq] at bad
      refine ⟨nofun, ?_⟩
      rintro ⟨_, all, first, last, _⟩
      rcases bad with (⟨c, inside, odd⟩ | dash) | dash
      · exact absurd (all c inside) odd
      · exact absurd dash first
      · exact absurd dash last
    · rename_i good
      simp only [Bool.or_eq_true, Bool.not_eq_true', List.all_eq_false, beq_iff_eq, not_or,
        not_exists, not_and, not_not] at good
      split
      · rename_i identifier
        simp [identifier]
      · rename_i class_
        simp only [true_iff]
        exact ⟨nonempty, good.1.1, good.1.2, good.2, Bool.eq_false_iff.mpr class_⟩

theorem undotted_token {token : String} (valid : validateToken token = .ok ()) :
    '.' ∉ token.toList := by
  intro dot
  have char := (validateToken_ok.mp valid).2.1 _ dot
  contradiction

theorem new_ok : Subject.new group event version = .ok subject ↔
    subject = ⟨group, event, version⟩ ∧ subject.Valid := by
  constructor
  · intro made
    cases first : validateToken group with
    | error e => simp [Subject.new, first, bind, Except.bind] at made
    | ok =>
      cases second : validateToken event with
      | error e => simp [Subject.new, first, second, bind, Except.bind] at made
      | ok =>
        by_cases zero : version = 0
        · simp [Subject.new, first, second, zero, bind, Except.bind, throw, throwThe,
            MonadExceptOf.throw] at made
        · simp only [Subject.new, first, second, zero, bind, Except.bind, pure,
            Except.pure, if_false,
            Except.ok.injEq] at made
          subst made
          exact ⟨rfl, first, second, Nat.one_le_iff_ne_zero.mpr zero⟩
  · rintro ⟨rfl, first, second, positive⟩
    have nonzero : version ≠ 0 := Nat.one_le_iff_ne_zero.mp positive
    simp only at first second
    simp [Subject.new, first, second, nonzero, bind, Except.bind, pure, Except.pure]

omit [External] in
theorem asString_toList (subject : Subject) : subject.asString.toList =
    ['.'].intercalate [root.toList, subject.group.toList, subject.event.toList,
      versionToken subject.version] := by
  simp [Subject.asString, List.intercalate, List.intersperse]

/-- The tokens of a rendered subject are its parts. -/
theorem asString_tokens (valid : subject.Valid) : subject.asString.toList.splitOn '.' =
    [root.toList, subject.group.toList, subject.event.toList, versionToken subject.version] := by
  rw [asString_toList]
  apply List.splitOn_intercalate
  · intro token member
    simp only [List.mem_cons, List.not_mem_nil, or_false] at member
    rcases member with rfl | rfl | rfl | rfl
    · decide
    · exact undotted_token valid.group
    · exact undotted_token valid.event
    · exact undotted_version
  · exact List.cons_ne_nil _ _

/-- A string parses exactly when it is the rendering of a valid subject, which it parses to. -/
theorem parse_ok : Subject.parse s = .ok subject ↔
    s = subject.asString ∧ subject.Valid ∧ subject.version < 2 ^ 32 := by
  constructor
  · intro parsed
    unfold Subject.parse at parsed
    split at parsed
    · rename_i first group event digits tokens
      split at parsed
      · rename_i rooted
        split at parsed
        · rename_i version read
          split at parsed
          · rename_i spelled
            obtain ⟨rfl, valid⟩ := new_ok.mp parsed
            refine ⟨?_, valid, parseU32_lt read⟩
            have split : ['.'].intercalate (s.toList.splitOn '.') = s.toList :=
              List.intercalate_splitOn '.'
            apply String.toList_inj.mp
            rw [asString_toList, ← split, tokens, rooted, spelled]
            simp only [String.toList_ofList]
          · cases parsed
        · cases parsed
      · cases parsed
    · cases parsed
  · rintro ⟨rfl, valid, fits⟩
    unfold Subject.parse
    rw [asString_tokens valid]
    simp only [versionToken, parseU32_toDigits fits, if_true, String.ofList_toList]
    exact new_ok.mpr ⟨rfl, valid⟩

/- What `Uuid::parse_str` does on the token alphabet. -/
def ReadsUuids : Prop :=
  ∀ token : String, (∀ c ∈ token.toList, tokenChar c = true) →
    External.parseUuid token = uuidShaped token.toList

theorem validateToken_iff (uuids : ReadsUuids) {token : String} :
    validateToken token = .ok () ↔ Token token := by
  rw [validateToken_ok]
  constructor
  · rintro ⟨nonempty, alphabet, first, last, class_⟩
    exact ⟨nonempty, fun c member => tokenChar_iff.mp (alphabet c member), first, last,
      uuids token alphabet ▸ class_⟩
  · rintro ⟨nonempty, alphabet, first, last, class_⟩
    have chars : ∀ c ∈ token.toList, tokenChar c = true :=
      fun c member => tokenChar_iff.mpr (alphabet c member)
    exact ⟨nonempty, chars, first, last, (uuids token chars).trans class_⟩

omit [External] in
theorem numeral_toDigits (positive : 1 ≤ version) (fits : version < 2 ^ 32) :
    Numeral (String.ofList (toDigits 10 version)) where
  nonempty := by
    intro empty
    exact toDigits_ne_nil (String.ofList_eq_empty_iff.mp empty)
  digits := by
    rw [String.toList_ofList]
    intro c member
    exact isDigit_range.mp (Decimal.isDigit_toDigits c member)
  first := by
    rw [String.toList_ofList]
    exact Decimal.toDigits_head positive
  positive := by rwa [String.toList_ofList, ofDigitChars_ten_toDigits]
  bounded := by rwa [String.toList_ofList, ofDigitChars_ten_toDigits]

omit [External] in
theorem toDigits_numeral {numeral : String} (canonical : Numeral numeral) :
    toDigits 10 (ofDigitChars 10 numeral.toList 0) = numeral.toList := by
  apply Decimal.toDigits_ofDigitChars
  · intro empty
    exact canonical.nonempty (String.toList_eq_nil_iff.mp empty)
  · intro c member
    exact isDigit_range.mpr (canonical.digits c member)
  · exact canonical.first

omit [External] in
theorem asString_eq (group event : String) (version : Nat) :
    (Subject.mk group event version).asString =
      "fiducia." ++ group ++ "." ++ event ++ ".v" ++ String.ofList (toDigits 10 version) := by
  apply String.toList_inj.mp
  simp [Subject.asString, root, versionToken]

theorem canonical_iff (uuids : ReadsUuids) :
    Canonical s ↔ ∃ subject : Subject, s = subject.asString ∧ subject.Valid ∧
      subject.version < 2 ^ 32 := by
  constructor
  · rintro ⟨group, event, numeral, rfl, first, second, canonical⟩
    refine ⟨⟨group, event, ofDigitChars 10 numeral.toList 0⟩, ?_, ?_, canonical.bounded⟩
    · rw [asString_eq, toDigits_numeral canonical, String.ofList_toList]
    · exact ⟨(validateToken_iff uuids).mpr first, (validateToken_iff uuids).mpr second,
        canonical.positive⟩
  · rintro ⟨subject, rfl, valid, fits⟩
    exact ⟨subject.group, subject.event, String.ofList (toDigits 10 subject.version),
      asString_eq _ _ _, (validateToken_iff uuids).mp valid.group,
      (validateToken_iff uuids).mp valid.event, numeral_toDigits valid.positive fits⟩

/-- Parsing accepts the canonical strings, and rendering inverts it both ways, so that no
two strings denote one subject. -/
theorem parse_canonical (uuids : ReadsUuids) :
    (∀ s, (∃ subject, Subject.parse s = .ok subject) ↔ Canonical s) ∧
      (∀ s subject, Subject.parse s = .ok subject → subject.asString = s) ∧
      (∀ group event version subject, version < 2 ^ 32 →
        Subject.new group event version = .ok subject →
          Subject.parse subject.asString = .ok subject) ∧
      ∀ s t subject, Subject.parse s = .ok subject →
        Subject.parse t = .ok subject → s = t := by
  refine ⟨?_, ?_, ?_, ?_⟩
  · intro s
    rw [canonical_iff uuids]
    exact exists_congr (fun subject => parse_ok)
  · intro s subject parsed
    exact (parse_ok.mp parsed).1.symm
  · intro group event version subject fits made
    obtain ⟨rfl, valid⟩ := new_ok.mp made
    exact parse_ok.mpr ⟨rfl, valid, fits⟩
  · intro s t subject first second
    rw [(parse_ok.mp first).1, (parse_ok.mp second).1]

end Parse

section Sample

/- A reader of the lowercase spellings; nothing is serialized or hashed. -/
@[reducible] def hexReader : External where
  toVec _ := .error "not sampled"
  parseUuid token := uuidShaped token.toList
  sha256 _ := []
  debug text := "\"" ++ text ++ "\""

attribute [local instance] hexReader

theorem parse_canonical_versions : Canonical "fiducia.executions.completed.v1" ∧
    ¬ Canonical "fiducia.executions.completed.v01" := by
  obtain ⟨accepts, _⟩ := parse_canonical (fun _ _ => rfl)
  constructor
  · apply (accepts _).mp
    exact ⟨⟨"executions", "completed", 1⟩, by decide +kernel⟩
  · intro canonical
    obtain ⟨subject, parsed⟩ := (accepts _).mpr canonical
    have refused : Subject.parse "fiducia.executions.completed.v01" =
        .error (.malformed "fiducia.executions.completed.v01") := by decide +kernel
    cases refused.symm.trans parsed

end Sample

end FiduciaMessaging
