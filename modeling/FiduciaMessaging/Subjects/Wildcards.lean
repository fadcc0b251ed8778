import FiduciaMessaging.Error
import FiduciaMessaging.Subjects.Grammar
import FiduciaMessaging.Foundations.Topics

/-! Subscriptions by wildcard. A published subject reaches the stream and the group
wildcard of its own group and version, and no other. -/
namespace FiduciaMessaging

open Topics

/-- `STREAM_SUBJECTS`. -/
def streamSubjects : String := "fiducia.>"

/- How the broker matches a subject against a subscription or a stream filter. -/
def natsMatches (pattern subject : String) : Bool :=
  covers ['*'] ['>'] (pattern.toList.splitOn '.') (subject.toList.splitOn '.')

theorem root_not_marker : root.toList ≠ ['*'] ∧ root.toList ≠ ['>'] := by decide

theorem version_not_marker {version : Nat} :
    versionToken version ≠ ['*'] ∧ versionToken version ≠ ['>'] := by
  constructor
  · intro star
    exact absurd (List.cons.inj star).1 (by decide)
  · intro arrow
    exact absurd (List.cons.inj arrow).1 (by decide)

theorem versionToken_inj {m n : Nat} (same : versionToken m = versionToken n) : m = n := by
  have digits := (List.cons.inj same).2
  calc m = Nat.ofDigitChars 10 (Nat.toDigits 10 m) 0 := Nat.ofDigitChars_ten_toDigits.symm
    _ = Nat.ofDigitChars 10 (Nat.toDigits 10 n) 0 := by rw [digits]
    _ = n := Nat.ofDigitChars_ten_toDigits

section Subjects

variable [External] {group : String} {version : Nat} {pattern s : String} {subject : Subject}

theorem groupWildcard_ok : Subject.groupWildcard group version = .ok pattern ↔
    validateToken group = .ok () ∧ 1 ≤ version ∧
      pattern = root ++ "." ++ group ++ ".*." ++ String.ofList (versionToken version) := by
  cases checked : validateToken group with
  | error e => simp [Subject.groupWildcard, checked, bind, Except.bind]
  | ok =>
    by_cases zero : version = 0
    · simp [Subject.groupWildcard, checked, zero, bind, Except.bind, throw, throwThe,
        MonadExceptOf.throw]
    · have positive : 1 ≤ version := Nat.one_le_iff_ne_zero.mpr zero
      simp [Subject.groupWildcard, checked, zero, positive, bind, Except.bind, pure, Except.pure,
        eq_comm]

theorem wildcard_tokens (valid : validateToken group = .ok ()) :
    (root ++ "." ++ group ++ ".*." ++ String.ofList (versionToken version)).toList.splitOn '.' =
      [root.toList, group.toList, ['*'], versionToken version] := by
  have joined : (root ++ "." ++ group ++ ".*." ++ String.ofList (versionToken version)).toList =
      ['.'].intercalate [root.toList, group.toList, ['*'], versionToken version] := by
    simp [List.intercalate, List.intersperse]
  rw [joined]
  apply List.splitOn_intercalate
  · intro token member
    simp only [List.mem_cons, List.not_mem_nil, or_false] at member
    rcases member with rfl | rfl | rfl | rfl
    · decide
    · exact undotted_token valid
    · decide
    · exact undotted_version
  · exact List.cons_ne_nil _ _

/-- A valid token is no wildcard. -/
theorem token_not_marker {token : String} (valid : validateToken token = .ok ()) :
    token.toList ≠ ['*'] ∧ token.toList ≠ ['>'] := by
  have alphabet := (validateToken_ok.mp valid).2.1
  constructor
  · intro star
    have char := alphabet '*' (star ▸ List.mem_cons_self)
    contradiction
  · intro arrow
    have char := alphabet '>' (arrow ▸ List.mem_cons_self)
    contradiction

/-- A group wildcard matches a subject of its own group and version only. -/
theorem wildcard_matches (valid : subject.Valid)
    (wildcard : Subject.groupWildcard group version = .ok pattern) :
    natsMatches pattern subject.asString = true ↔
      subject.group = group ∧ subject.version = version := by
  obtain ⟨token, _, rfl⟩ := groupWildcard_ok.mp wildcard
  unfold natsMatches
  rw [wildcard_tokens token, asString_tokens valid,
    covers_literal root_not_marker.1 root_not_marker.2]
  have literal := token_not_marker token
  constructor
  · rintro ⟨rest, split, matched⟩
    obtain ⟨_, rfl⟩ := List.cons.inj split
    obtain ⟨rest, split, matched⟩ := (covers_literal literal.1 literal.2).mp matched
    obtain ⟨sameGroup, rfl⟩ := List.cons.inj split
    obtain ⟨event, rest, split, matched⟩ := (covers_one (by decide)).mp matched
    obtain ⟨_, rfl⟩ := List.cons.inj split
    obtain ⟨rest, split, _⟩ :=
      (covers_literal version_not_marker.1 version_not_marker.2).mp matched
    obtain ⟨sameVersion, _⟩ := List.cons.inj split
    exact ⟨String.toList_inj.mp sameGroup, versionToken_inj sameVersion⟩
  · rintro ⟨rfl, rfl⟩
    refine ⟨_, rfl, (covers_literal literal.1 literal.2).mpr ⟨_, rfl, ?_⟩⟩
    refine (covers_one (by decide)).mpr ⟨_, _, rfl, ?_⟩
    exact (covers_literal version_not_marker.1 version_not_marker.2).mpr
      ⟨_, rfl, covers_nil.mpr rfl⟩

theorem validateForPublish_parses {payloadLen : Nat}
    (accepted : validateForPublish s payloadLen = .ok ()) :
    ∃ subject, Subject.parse s = .ok subject := by
  unfold validateForPublish at accepted
  split at accepted
  · cases accepted
  · rename_i subject parsed
    exact ⟨subject, parsed⟩

theorem stream_matches (valid : subject.Valid) :
    natsMatches streamSubjects subject.asString = true := by
  have filter : streamSubjects.toList.splitOn '.' = [root.toList, ['>']] := by decide +kernel
  unfold natsMatches
  rw [filter, asString_tokens valid, covers_literal root_not_marker.1 root_not_marker.2]
  exact ⟨_, rfl, covers_more.mpr (List.cons_ne_nil _ _)⟩

/-- What the relay may publish reaches the stream and the one group wildcard of its group
and version, and contains no wildcard. -/
theorem wildcard_receives_class {payloadLen : Nat}
    (accepted : validateForPublish s payloadLen = .ok ()) :
    (∀ group version pattern, Subject.groupWildcard group version = .ok pattern →
      (natsMatches pattern s = true ↔ ∃ subject, Subject.parse s = .ok subject ∧
        subject.group = group ∧ subject.version = version)) ∧
      (∀ token ∈ s.toList.splitOn '.', token ≠ ['*'] ∧ token ≠ ['>']) ∧
      natsMatches streamSubjects s = true ∧
      ∃! class_ : String × Nat, class_.2 < 2 ^ 32 ∧
        ∃ pattern, Subject.groupWildcard class_.1 class_.2 = .ok pattern ∧
          natsMatches pattern s = true := by
  obtain ⟨subject, parsed⟩ := validateForPublish_parses accepted
  obtain ⟨rfl, valid, fits⟩ := parse_ok.mp parsed
  refine ⟨?_, ?_, stream_matches valid, ?_⟩
  · intro group version pattern wildcard
    rw [wildcard_matches valid wildcard]
    constructor
    · intro same
      exact ⟨subject, parsed, same⟩
    · rintro ⟨other, parsed', same⟩
      cases parsed.symm.trans parsed'
      exact same
  · rw [asString_tokens valid]
    intro token member
    simp only [List.mem_cons, List.not_mem_nil, or_false] at member
    rcases member with rfl | rfl | rfl | rfl
    · exact root_not_marker
    · exact token_not_marker valid.group
    · exact token_not_marker valid.event
    · exact version_not_marker
  · have wildcard := groupWildcard_ok.mpr ⟨valid.group, valid.positive, rfl⟩
    refine ⟨(subject.group, subject.version), ⟨fits, _, wildcard, ?_⟩, ?_⟩
    · exact (wildcard_matches valid wildcard).mpr ⟨rfl, rfl⟩
    · rintro ⟨group, version⟩ ⟨_, pattern, wildcard', matched⟩
      obtain ⟨sameGroup, sameVersion⟩ := (wildcard_matches valid wildcard').mp matched
      rw [sameGroup, sameVersion]

end Subjects

section Sample

attribute [local instance] hexReader

theorem wildcard_receives_executions :
    natsMatches "fiducia.executions.*.v1" "fiducia.executions.completed.v1" = true ∧
      natsMatches streamSubjects "fiducia.executions.completed.v1" = true := by
  have accepted : validateForPublish "fiducia.executions.completed.v1" 0 = .ok () := by
    decide +kernel
  obtain ⟨classes, _, streamed, _⟩ := wildcard_receives_class accepted
  refine ⟨?_, streamed⟩
  apply (classes "executions" 1 _ (by decide +kernel)).mpr
  exact ⟨⟨"executions", "completed", 1⟩, by decide +kernel, rfl, rfl⟩

end Sample

end FiduciaMessaging
