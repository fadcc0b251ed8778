import Mathlib.Data.List.DropRight

/-! Scanning text as a list of characters: trimming, and the pieces around a
first or a last delimiter. -/
namespace Text

/-- The `White_Space` property, which Rust's `trim` and `is_whitespace` follow. -/
def isWhitespace (c : Char) : Bool :=
  let n := c.toNat
  (9 ≤ n && n ≤ 13) || n == 32 || n == 133 || n == 160 || n == 5760 ||
    (8192 ≤ n && n ≤ 8202) ||
    n == 8232 || n == 8233 || n == 8239 || n == 8287 || n == 12288

/-- The general category `Cc`, which Rust's `is_control` follows. -/
def isControl (c : Char) : Bool := c.toNat < 32 || (127 ≤ c.toNat && c.toNat < 160)

/-- `str::trim`. -/
def trim (text : List Char) : List Char := (text.dropWhile isWhitespace).rdropWhile isWhitespace

/-- `trim().is_empty()`. -/
def isBlank (text : List Char) : Bool := trim text == []

/-- `split_once` at the first occurrence of a non-empty separator. -/
def splitOnce (separator : List Char) : List Char → Option (List Char × List Char)
  | [] => none
  | c :: rest =>
    if separator.isPrefixOf (c :: rest) then some ([], (c :: rest).drop separator.length)
    else (splitOnce separator rest).map (fun pieces => (c :: pieces.1, pieces.2))

/-- `rsplit_once` at the last occurrence of a character. -/
def rsplitOnce (separator : Char) : List Char → Option (List Char × List Char)
  | [] => none
  | c :: rest =>
    match rsplitOnce separator rest with
    | some (before, after) => some (c :: before, after)
    | none => if c = separator then some ([], rest) else none

variable {c : Char} {text before after tail : List Char}

theorem not_blank (inside : c ∈ text) (dark : isWhitespace c = false) : isBlank text = false := by
  have kept : c ∈ text.dropWhile isWhitespace := by
    rw [← List.takeWhile_append_dropWhile (p := isWhitespace) (l := text)] at inside
    rcases List.mem_append.mp inside with leading | later
    · rw [List.mem_takeWhile_imp leading] at dark
      cases dark
    · exact later
  apply Bool.eq_false_iff.mpr
  intro blank
  have gone : (text.dropWhile isWhitespace).rdropWhile isWhitespace = [] := eq_of_beq blank
  rw [List.rdropWhile_eq_nil_iff.mp gone c kept] at dark
  cases dark

/-- A character of the text is the separator or one of a piece. -/
theorem mem_piece {separator : Char} (inside : c ∈ text) :
    c = separator ∨ ∃ piece ∈ text.splitOn separator, c ∈ piece := by
  have joined (pieces : List (List Char)) (inside : c ∈ [separator].intercalate pieces) :
      c = separator ∨ ∃ piece ∈ pieces, c ∈ piece := by
    induction pieces with
    | nil => cases inside
    | cons first rest ih =>
      cases rest with
      | nil => exact .inr ⟨first, List.mem_cons_self, by simpa [List.intercalate] using inside⟩
      | cons second rest =>
        rw [List.intercalate_cons_cons] at inside
        rcases List.mem_append.mp inside with front | later
        · rcases List.mem_append.mp front with here | dot
          · exact .inr ⟨first, List.mem_cons_self, here⟩
          · exact .inl (List.mem_singleton.mp dot)
        · rcases ih later with dot | ⟨piece, listed, here⟩
          · exact .inl dot
          · exact .inr ⟨piece, List.mem_cons_of_mem _ listed, here⟩
  exact joined _ ((List.intercalate_splitOn separator).symm ▸ inside)

/-- A character of a piece is a character of the text. -/
theorem mem_of_mem_piece {separator : Char} {piece : List Char}
    (listed : piece ∈ text.splitOn separator) (inside : c ∈ piece) : c ∈ text := by
  have joined (pieces : List (List Char)) (listed : piece ∈ pieces) :
      c ∈ [separator].intercalate pieces := by
    induction pieces with
    | nil => cases listed
    | cons first rest ih =>
      cases rest with
      | nil =>
        rw [List.mem_singleton.mp listed] at inside
        simpa [List.intercalate] using inside
      | cons second rest =>
        rw [List.intercalate_cons_cons]
        rcases List.mem_cons.mp listed with rfl | later
        · exact List.mem_append_left _ (List.mem_append_left _ inside)
        · exact List.mem_append_right _ (ih later)
  have whole := joined (text.splitOn separator) listed
  rwa [List.intercalate_splitOn] at whole

theorem rsplitOnce_none : rsplitOnce c text = none ↔ c ∉ text := by
  induction text with
  | nil => simp [rsplitOnce]
  | cons d text ih =>
    unfold rsplitOnce
    cases found : rsplitOnce c text with
    | none =>
      have absent := ih.mp found
      by_cases same : d = c
      · simp [same]
      · simp [same, absent, Ne.symm same]
    | some pieces =>
      have present : c ∈ text := by
        by_contra absent
        rw [ih.mpr absent] at found
        cases found
      simp [present]

theorem rsplitOnce_append (absent : c ∉ after) :
    rsplitOnce c (before ++ c :: after) = some (before, after) := by
  induction before with
  | nil => simp [rsplitOnce, rsplitOnce_none.mpr absent]
  | cons d before ih => simp [rsplitOnce, ih]

theorem rsplitOnce_spec (found : rsplitOnce c text = some (before, after)) :
    text = before ++ c :: after ∧ c ∉ after := by
  induction text generalizing before with
  | nil => simp [rsplitOnce] at found
  | cons d text ih =>
    unfold rsplitOnce at found
    cases later : rsplitOnce c text with
    | none =>
      simp only [later, Option.ite_none_right_eq_some, Option.some.injEq, Prod.mk.injEq] at found
      obtain ⟨rfl, rfl, rfl⟩ := found
      exact ⟨rfl, rsplitOnce_none.mp later⟩
    | some pieces =>
      obtain ⟨front, back⟩ := pieces
      simp only [later, Option.some.injEq, Prod.mk.injEq] at found
      obtain ⟨rfl, rfl⟩ := found
      obtain ⟨split, absent⟩ := ih later
      exact ⟨by rw [split]; rfl, absent⟩

theorem rsplitOnce_some :
    rsplitOnce c text = some (before, after) ↔ text = before ++ c :: after ∧ c ∉ after := by
  constructor
  · exact rsplitOnce_spec
  · rintro ⟨rfl, absent⟩
    exact rsplitOnce_append absent

/-- What follows the last occurrence of a character, or everything. -/
def afterLast (separator : Char) (text : List Char) : List Char :=
  match rsplitOnce separator text with
  | some (_, after) => after
  | none => text

theorem afterLast_suffix (c : Char) (text : List Char) : afterLast c text <:+ text := by
  unfold afterLast
  split
  · rename_i before after split
    rw [(rsplitOnce_some.mp split).1]
    exact ⟨before ++ [c], by simp⟩
  · exact List.suffix_rfl

/-- The last occurrence of a character does not depend on what follows without it. -/
theorem afterLast_append (absent : c ∉ tail) :
    afterLast c (text ++ tail) = afterLast c text ++ tail := by
  unfold afterLast
  cases found : rsplitOnce c text with
  | none =>
    have missing : c ∉ text ++ tail := by
      simp [rsplitOnce_none.mp found, absent]
    rw [rsplitOnce_none.mpr missing]
  | some pieces =>
    obtain ⟨before, after⟩ := pieces
    obtain ⟨split, missing⟩ := rsplitOnce_some.mp found
    have whole : rsplitOnce c (text ++ tail) = some (before, after ++ tail) :=
      rsplitOnce_some.mpr ⟨by simp [split], by simp [missing, absent]⟩
    rw [whole]

end Text
