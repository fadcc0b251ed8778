import Mathlib.Logic.Function.Basic
import Mathlib.Data.List.Perm.Basic

/-! Reading a record entry by entry. A known key fills the slot of its own type, once;
an unknown key is skipped. What is read does not depend on the order of the entries. -/
namespace KeyedRecord

variable {N K V E : Type} {S : K → Type}

section Fill

variable (key : N → Option K) (read : (k : K) → V → Except E (S k)) (duplicate : K → E)

def fill [DecidableEq K] : List (N × V) → ((k : K) → Option (S k)) →
    Except E ((k : K) → Option (S k))
  | [], slots => .ok slots
  | (name, value) :: rest, slots =>
    match key name with
    | none => fill rest slots
    | some k =>
      if (slots k).isSome then .error (duplicate k)
      else
        match read k value with
        | .error error => .error error
        | .ok found => fill rest (Function.update slots k (some found))

/- The known keys of the entries, in order. -/
def present (entries : List (N × V)) : List K := entries.filterMap (fun entry => key entry.1)

/- No known key occurs twice, and each reads as its component of the record. -/
structure Holds (record : (k : K) → S k) (entries : List (N × V)) : Prop where
  distinct : (present key entries).Nodup
  reads : ∀ entry ∈ entries, ∀ k, key entry.1 = some k → read k entry.2 = .ok (record k)

end Fill

variable {key : N → Option K} {read : (k : K) → V → Except E (S k)}
  {record : (k : K) → S k} {entries : List (N × V)} {name : N} {value : V} {k : K}

theorem present_cons_none (value : V) (entries : List (N × V)) (unknown : key name = none) :
    present key ((name, value) :: entries) = present key entries :=
  List.filterMap_cons_none unknown

theorem present_cons_some (value : V) (entries : List (N × V)) (known : key name = some k) :
    present key ((name, value) :: entries) = k :: present key entries :=
  List.filterMap_cons_some known

/-- Entries that hold a record fill its slots for the keys among them and no other. -/
theorem fill_holds [DecidableEq K] (duplicate : K → E) (holds : Holds key read record entries)
    (slots : (k : K) → Option (S k)) (empty : ∀ k ∈ present key entries, slots k = none) :
    fill key read duplicate entries slots =
      .ok (fun k => if k ∈ present key entries then some (record k) else slots k) := by
  induction entries generalizing slots with
  | nil => rfl
  | cons entry rest ih =>
    obtain ⟨name, value⟩ := entry
    have later : ∀ entry ∈ rest, ∀ k, key entry.1 = some k →
        read k entry.2 = .ok (record k) :=
      fun entry member => holds.reads entry (List.mem_cons_of_mem _ member)
    cases known : key name with
    | none =>
      have same := present_cons_none value rest known
      have distinct := holds.distinct
      rw [same] at distinct empty
      simp only [fill, known, same]
      exact ih ⟨distinct, later⟩ slots empty
    | some k =>
      have grown := present_cons_some value rest known
      have distinct := holds.distinct
      rw [grown] at distinct empty
      obtain ⟨first, distinct⟩ := List.nodup_cons.mp distinct
      have found := holds.reads (name, value) List.mem_cons_self k known
      simp only [fill, known, empty k List.mem_cons_self, found, grown]
      rw [if_neg (by simp)]
      have clear : ∀ k' ∈ present key rest,
          Function.update slots k (some (record k)) k' = none := by
        intro k' member
        have other : k' ≠ k := by
          rintro rfl
          exact first member
        rw [Function.update_of_ne other]
        exact empty k' (List.mem_cons_of_mem k member)
      rw [ih ⟨distinct, later⟩ _ clear]
      congr 1
      funext k'
      by_cases same : k' = k
      · subst same
        rw [if_neg first, if_pos List.mem_cons_self, Function.update_self]
      · rw [Function.update_of_ne same]
        simp only [List.mem_cons, same, false_or]

/-- Reading leaves the slot of a key that no entry has as it was. -/
theorem fill_absent [DecidableEq K] (duplicate : K → E) {slots filled : (k : K) → Option (S k)}
    (read_ : fill key read duplicate entries slots = .ok filled)
    (absent : k ∉ present key entries) : filled k = slots k := by
  induction entries generalizing slots with
  | nil =>
    cases read_
    rfl
  | cons entry rest ih =>
    obtain ⟨name, value⟩ := entry
    cases known : key name with
    | none =>
      rw [present_cons_none value rest known] at absent
      simp only [fill, known] at read_
      exact ih read_ absent
    | some k' =>
      rw [present_cons_some value rest known, List.mem_cons, not_or] at absent
      simp only [fill, known] at read_
      split at read_
      · cases read_
      · split at read_
        · cases read_
        · rw [ih read_ absent.2, Function.update_of_ne absent.1]

theorem Holds.perm {entries' : List (N × V)} (holds : Holds key read record entries)
    (perm : entries.Perm entries') : Holds key read record entries' where
  distinct := (perm.filterMap _).nodup_iff.mp holds.distinct
  reads := fun entry member => holds.reads entry (perm.mem_iff.mpr member)

theorem Holds.unknown (holds : Holds key read record entries) (foreign : key name = none) :
    Holds key read record ((name, value) :: entries) where
  distinct := by
    rw [present_cons_none value entries foreign]
    exact holds.distinct
  reads := by
    intro entry member k known
    rcases List.mem_cons.mp member with rfl | old
    · cases foreign.symm.trans known
    · exact holds.reads entry old k known

theorem Holds.known (holds : Holds key read record entries) (here : key name = some k)
    (fresh : k ∉ present key entries) (reads : read k value = .ok (record k)) :
    Holds key read record ((name, value) :: entries) where
  distinct := by
    rw [present_cons_some value entries here]
    exact List.nodup_cons.mpr ⟨fresh, holds.distinct⟩
  reads := by
    intro entry member k' known
    rcases List.mem_cons.mp member with rfl | old
    · obtain rfl := Option.some.inj (here.symm.trans known)
      exact reads
    · exact holds.reads entry old k' known

theorem Holds.sublist {entries' : List (N × V)} (holds : Holds key read record entries)
    (fewer : entries'.Sublist entries) : Holds key read record entries' where
  distinct := holds.distinct.sublist (fewer.filterMap _)
  reads := fun entry member => holds.reads entry (fewer.subset member)

end KeyedRecord
