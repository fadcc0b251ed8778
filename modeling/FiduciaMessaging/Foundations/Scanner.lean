import Mathlib.Data.List.TakeWhile

/-! Readers that take a value off the front of a text, or fail and leave the
text to the caller. A reader stays within a set of characters when all it ever
takes are of that set. -/
namespace Scanner

abbrev Reader (α : Type) := StateT (List Char) Option α

variable {α β : Type} {P : Char → Prop}

/-- Everything the reader takes off the text satisfies `P`. -/
def Within (P : Char → Prop) (reader : Reader α) : Prop :=
  ∀ text value rest, reader text = some (value, rest) →
    ∃ used, text = used ++ rest ∧ ∀ c ∈ used, P c

theorem Within.bind {first : Reader α} {second : α → Reader β} (head : Within P first)
    (tail : ∀ value, Within P (second value)) : Within P (first >>= second) := by
  intro text value rest read
  obtain ⟨⟨middle, left⟩, front, back⟩ := Option.bind_eq_some_iff.mp read
  obtain ⟨used, split, inside⟩ := head text middle left front
  obtain ⟨more, split', inside'⟩ := tail middle left value rest back
  refine ⟨used ++ more, by rw [split, split', List.append_assoc], ?_⟩
  intro c member
  rcases List.mem_append.mp member with first | second
  · exact inside c first
  · exact inside' c second

theorem Within.pure (value : α) : Within P (pure value : Reader α) := by
  intro text result rest read
  obtain ⟨_, rfl⟩ := Prod.mk.inj (Option.some.inj read)
  exact ⟨[], rfl, by simp⟩

/-- `char::to_digit`. -/
def toDigit (radix : Nat) (c : Char) : Option Nat :=
  let digit :=
    if '0' ≤ c ∧ c ≤ '9' then c.toNat - 48
    else if 'a' ≤ c ∧ c ≤ 'z' then c.toNat - 87
    else if 'A' ≤ c ∧ c ≤ 'Z' then c.toNat - 55
    else radix
  if digit < radix then some digit else none

def readGivenChar (target : Char) : Reader Unit := fun text =>
  match text with
  | c :: rest => if c = target then some ((), rest) else none
  | [] => none

/-- The inner value, after a separator unless it is the first. -/
def readSeparator (separator : Char) (index : Nat) (inner : Reader α) : Reader α :=
  if 0 < index then readGivenChar separator >>= fun _ => inner else inner

/-- A number below `bound` of at most `maxDigits` digits. -/
def readNumber (radix maxDigits : Nat) (allowZeroPrefix : Bool) (bound : Nat) : Reader Nat :=
  fun text =>
    let digits := text.takeWhile (fun c => (toDigit radix c).isSome)
    if maxDigits < digits.length then none
    else if digits = [] then none
    else if !allowZeroPrefix && digits.head? = some '0' && 1 < digits.length then none
    else
      let value := digits.foldl (fun n c => n * radix + (toDigit radix c).getD 0) 0
      if value < bound then some
        (value, text.dropWhile (fun c => (toDigit radix c).isSome)) else none

theorem readGivenChar_within {target : Char} (allowed : P target) :
    Within P (readGivenChar target) := by
  intro text value rest read
  unfold readGivenChar at read
  split at read
  · split at read
    · rename_i c _ same
      obtain ⟨_, rfl⟩ := Prod.mk.inj (Option.some.inj read)
      exact ⟨[c], rfl, by simpa [same] using allowed⟩
    · contradiction
  · contradiction

theorem readSeparator_within {separator : Char} {inner : Reader α} (allowed : P separator)
    (within : Within P inner) (index : Nat) : Within P (readSeparator separator index inner) := by
  unfold readSeparator
  split
  · exact (readGivenChar_within allowed).bind (fun _ => within)
  · exact within

theorem readNumber_within {radix maxDigits bound : Nat} {allowZeroPrefix : Bool}
    (digits : ∀ c, (toDigit radix c).isSome = true → P c) :
    Within P (readNumber radix maxDigits allowZeroPrefix bound) := by
  intro text value rest read
  simp only [readNumber] at read
  split at read
  · contradiction
  · split at read
    · contradiction
    · split at read
      · contradiction
      · split at read
        · obtain ⟨_, rfl⟩ := Prod.mk.inj (Option.some.inj read)
          refine ⟨_, (List.takeWhile_append_dropWhile).symm, ?_⟩
          intro c member
          exact digits c (by simpa using List.mem_takeWhile_imp member)
        · contradiction

end Scanner
