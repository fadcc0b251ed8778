import Mathlib.Data.List.Infix

/-! Codes that mark their own end: the rules by which a concatenation of fixed-width
fields, tags and length-prefixed text stays readable in one way only. -/
namespace PrefixCode

variable {A B C : Type}

/-- Two inputs whose codes begin one text are the same, and so is what follows. -/
def SelfDelimiting (domain : A → Prop) (code : A → List B) : Prop :=
  ∀ a b s t, domain a → domain b → code a ++ s = code b ++ t → a = b ∧ s = t

variable {domain : A → Prop} {code : A → List B}

theorem SelfDelimiting.injective (delimited : SelfDelimiting domain code) {a b : A}
    (left : domain a) (right : domain b) (same : code a = code b) : a = b :=
  (delimited a b [] [] left right (congrArg (· ++ []) same)).1

/-- No code is a proper prefix of another. -/
theorem SelfDelimiting.prefix_free (delimited : SelfDelimiting domain code) {a b : A}
    (left : domain a) (right : domain b) (begins : code a <+: code b) : a = b := by
  obtain ⟨s, same⟩ := begins
  exact (delimited a b s [] left right (by rw [same, List.append_nil])).1

theorem fixedWidth (width : Nat) (wide : ∀ a, domain a → (code a).length = width)
    (injective : ∀ a b, domain a → domain b → code a = code b → a = b) :
    SelfDelimiting domain code := by
  intro a b s t left right same
  obtain ⟨codes, rest⟩ := List.append_inj same ((wide a left).trans (wide b right).symm)
  exact ⟨injective a b left right codes, rest⟩

theorem SelfDelimiting.pair {domain' : C → Prop} {code' : C → List B}
    (first : SelfDelimiting domain code) (second : SelfDelimiting domain' code') :
    SelfDelimiting (fun p : A × C => domain p.1 ∧ domain' p.2)
      (fun p => code p.1 ++ code' p.2) := by
  rintro ⟨a, c⟩ ⟨b, d⟩ s t left right same
  rw [List.append_assoc, List.append_assoc] at same
  obtain ⟨rfl, rest⟩ := first a b _ _ left.1 right.1 same
  obtain ⟨rfl, tails⟩ := second c d s t left.2 right.2 rest
  exact ⟨rfl, tails⟩

theorem SelfDelimiting.prepend (header : List B) (delimited : SelfDelimiting domain code) :
    SelfDelimiting domain (fun a => header ++ code a) := by
  intro a b s t left right same
  rw [List.append_assoc, List.append_assoc] at same
  exact delimited a b s t left right (List.append_cancel_left same)

/-- Two different tags of one length keep the cases of an option apart. -/
theorem SelfDelimiting.option (absent present : List B) (apart : absent ≠ present)
    (wide : absent.length = present.length) (delimited : SelfDelimiting domain code) :
    SelfDelimiting (fun o : Option A => ∀ a, o = some a → domain a)
      (fun o => match o with
        | some a => present ++ code a
        | none => absent) := by
  intro o o' s t left right same
  cases o with
  | none =>
    cases o' with
    | none => exact ⟨rfl, List.append_cancel_left same⟩
    | some b =>
      rw [List.append_assoc] at same
      exact absurd (List.append_inj same wide).1 apart
  | some a =>
    cases o' with
    | none =>
      rw [List.append_assoc] at same
      exact absurd (List.append_inj same wide.symm).1.symm apart
    | some b =>
      rw [List.append_assoc, List.append_assoc] at same
      have rest := List.append_cancel_left same
      obtain ⟨rfl, tails⟩ := delimited a b s t (left a rfl) (right b rfl) rest
      exact ⟨rfl, tails⟩

/-- A text behind its own length is delimited if lengths are. -/
theorem lengthPrefixed {bound : Nat} {count : Nat → List B}
    (counts : SelfDelimiting (· < bound) count) :
    SelfDelimiting (fun text : List B => text.length < bound)
      (fun text => count text.length ++ text) := by
  intro x y s t left right same
  rw [List.append_assoc, List.append_assoc] at same
  obtain ⟨lengths, rest⟩ := counts _ _ _ _ left right same
  exact List.append_inj rest lengths

theorem SelfDelimiting.comap {domain' : C → Prop} (f : C → A)
    (delimited : SelfDelimiting domain code) (maps : ∀ c, domain' c → domain (f c))
    (injective : ∀ c d, f c = f d → c = d) : SelfDelimiting domain' (fun c => code (f c)) := by
  intro c d s t left right same
  obtain ⟨inputs, rest⟩ := delimited _ _ s t (maps c left) (maps d right) same
  exact ⟨injective c d inputs, rest⟩

/-- A sequence of non-empty delimited codes is read in one way. -/
theorem SelfDelimiting.flatMap (delimited : SelfDelimiting (fun _ : A => True) code)
    (nonempty : ∀ a, code a ≠ []) {xs ys : List A} (same : xs.flatMap code = ys.flatMap code) :
    xs = ys := by
  induction xs generalizing ys with
  | nil =>
    cases ys with
    | nil => rfl
    | cons y ys => simp [nonempty y] at same
  | cons x xs ih =>
    cases ys with
    | nil => simp [nonempty x] at same
    | cons y ys =>
      rw [List.flatMap_cons, List.flatMap_cons] at same
      obtain ⟨rfl, rest⟩ := delimited x y _ _ trivial trivial same
      rw [ih rest]

end PrefixCode
