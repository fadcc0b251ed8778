import Mathlib.Data.List.Basic

/-! Subjects and subscription patterns as lists of tokens. One marker stands for exactly
one token, another, in the last place, for one or more; any other token stands for itself. -/
namespace Topics

variable {T : Type} [DecidableEq T]

def covers (one more : T) : List T → List T → Bool
  | [], [] => true
  | p :: ps, t :: ts =>
    (ps.isEmpty && p == more) || ((p == one || p == t) && covers one more ps ts)
  | _, _ => false

variable {one more p t : T} {ps ts : List T}

theorem covers_nil : covers one more [] ts = true ↔ ts = [] := by
  cases ts <;> simp [covers]

theorem covers_literal (single : p ≠ one) (final : p ≠ more) :
    covers one more (p :: ps) ts = true ↔ ∃ rest, ts = p :: rest ∧
      covers one more ps rest = true := by
  cases ts with
  | nil => simp [covers]
  | cons t ts =>
    simp only [covers, beq_eq_false_iff_ne.mpr single, beq_eq_false_iff_ne.mpr final,
      Bool.and_false, Bool.false_or, Bool.and_eq_true, beq_iff_eq, List.cons.injEq]
    constructor
    · rintro ⟨rfl, rest⟩
      exact ⟨ts, ⟨rfl, rfl⟩, rest⟩
    · rintro ⟨_, ⟨rfl, rfl⟩, rest⟩
      exact ⟨rfl, rest⟩

theorem covers_one (final : one ≠ more) :
    covers one more (one :: ps) ts = true ↔ ∃ t rest, ts = t :: rest ∧
      covers one more ps rest = true := by
  cases ts with
  | nil => simp [covers]
  | cons t ts => simp [covers, final]

theorem covers_more : covers one more [more] ts = true ↔ ts ≠ [] := by
  cases ts <;> simp [covers]

end Topics
