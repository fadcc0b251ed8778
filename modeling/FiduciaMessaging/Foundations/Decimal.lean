import Mathlib.Tactic.Common

/-! Decimal numerals as lists of characters. The numerals without a leading zero are
exactly the ones `Nat.toDigits` writes. -/
namespace Decimal

open Nat

variable {c : Char} {digits : List Char} {n : Nat}

theorem isDigit_iff : c.isDigit = true ↔ 48 ≤ c.toNat ∧ c.toNat ≤ 57 := by
  simp only [Char.isDigit, Bool.and_eq_true, decide_eq_true_eq, ge_iff_le]
  rfl

theorem digitChar_sub (digit : c.isDigit = true) : digitChar (c.toNat - '0'.toNat) = c := by
  obtain ⟨low, high⟩ := isDigit_iff.mp digit
  have zero : '0'.toNat = 48 := rfl
  apply Char.toNat_inj.mp
  rw [toNat_digitChar_of_lt_ten (by omega)]
  omega

theorem le_ofDigitChars (n : Nat) (digits : List Char) : n ≤ ofDigitChars 10 digits n := by
  induction digits generalizing n with
  | nil => exact Nat.le_of_eq ofDigitChars_nil.symm
  | cons c digits ih =>
    rw [ofDigitChars_cons]
    calc n ≤ 10 * n + (c.toNat - '0'.toNat) := by omega
      _ ≤ ofDigitChars 10 digits (10 * n + (c.toNat - '0'.toNat)) := ih _

/-- Reading more digits after a positive number and writing the result spells both. -/
theorem toDigits_append (pos : 0 < n) (all : ∀ c ∈ digits, c.isDigit = true) :
    toDigits 10 n ++ digits = toDigits 10 (ofDigitChars 10 digits n) := by
  induction digits generalizing n with
  | nil => rw [ofDigitChars_nil, List.append_nil]
  | cons c digits ih =>
    have digit := all c List.mem_cons_self
    have small : c.toNat - '0'.toNat < 10 := by
      have range := isDigit_iff.mp digit
      have zero : '0'.toNat = 48 := rfl
      omega
    have step := toDigits_append_toDigits (b := 10) (d := c.toNat - '0'.toNat) (by decide) pos small
    rw [toDigits_of_lt_base small, digitChar_sub digit] at step
    rw [ofDigitChars_cons, ← ih (by omega) (fun d later => all d (List.mem_cons_of_mem c later)),
      ← step, List.append_assoc]
    rfl

/-- A numeral that does not start with a zero is the one written for its value. -/
theorem toDigits_ofDigitChars (nonempty : digits ≠ []) (all : ∀ c ∈ digits, c.isDigit = true)
    (first : digits.head? ≠ some '0') : toDigits 10 (ofDigitChars 10 digits 0) = digits := by
  cases digits with
  | nil => exact absurd rfl nonempty
  | cons c digits =>
    have digit := all c List.mem_cons_self
    have zero : '0'.toNat = 48 := rfl
    obtain ⟨low, high⟩ := isDigit_iff.mp digit
    have nonzero : c.toNat ≠ 48 := by
      intro same
      exact first (congrArg some (Char.toNat_inj.mp (same.trans zero.symm)))
    have small : c.toNat - '0'.toNat < 10 := by omega
    rw [ofDigitChars_cons, Nat.mul_zero, Nat.zero_add, ← toDigits_append (by omega)
      (fun d later => all d (List.mem_cons_of_mem c later)), toDigits_of_lt_base small,
      digitChar_sub digit]
    rfl

theorem toDigits_head (pos : 0 < n) : (toDigits 10 n).head? ≠ some '0' := by
  induction n using Nat.strongRecOn with
  | ind n ih =>
    rw [toDigits_eq_if (by decide)]
    split
    · rename_i small
      intro zero
      have digit : digitChar n = '0' := Option.some.inj zero
      have value := toNat_digitChar_of_lt_ten small
      rw [digit] at value
      have zero : '0'.toNat = 48 := rfl
      omega
    · rename_i large
      have earlier := ih (n / 10) (by omega) (by omega)
      cases front : toDigits 10 (n / 10) with
      | nil => exact absurd front toDigits_ne_nil
      | cons c rest =>
        rw [front] at earlier
        exact earlier

theorem isDigit_toDigits : ∀ c ∈ toDigits 10 n, c.isDigit = true :=
  fun _ member => isDigit_of_mem_toDigits (by decide) (by decide) member

end Decimal
