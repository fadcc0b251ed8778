import Mathlib.Order.Lattice

/-! A lease cell: at most one holder with an expiry. It is taken only when free,
and nothing but its holder's own act or the clock ends it. -/
namespace Lease

variable {O T : Type} [LinearOrder T]

/- A holder and the time its lease runs out. -/
abbrev Cell (O T : Type) := Option (O × T)

def Free (now : T) (cell : Cell O T) : Prop := ∀ o e, cell = some (o, e) → e ≤ now

def Held (now : T) (o : O) (cell : Cell O T) : Prop := ∃ e, cell = some (o, e) ∧ now < e

/- One change of a cell at time `now`. -/
inductive Move (now : T) : Cell O T → Cell O T → Prop where
  | kept (cell : Cell O T) : Move now cell cell
  | taken {cell : Cell O T} (o : O) (e : T) : Free now cell → Move now cell (some (o, e))
  | ended (o : O) (e : T) : Move now (some (o, e)) none

theorem held_unique {now : T} {cell : Cell O T} {a b : O} (first : Held now a cell)
    (second : Held now b cell) : a = b := by
  obtain ⟨e, rfl, _⟩ := first
  obtain ⟨f, same, _⟩ := second
  exact (Prod.mk.inj (Option.some.inj same)).1

/-- An owned cell is either held by its owner or free, and never both. -/
theorem held_iff_not_free {now e : T} {o : O} :
    Held now o (some (o, e) : Cell O T) ↔ ¬ Free now (some (o, e)) := by
  constructor
  · rintro ⟨f, same, live⟩ free
    exact absurd (free o f same) (not_le.mpr live)
  · intro busy
    refine ⟨e, rfl, not_le.mp ?_⟩
    intro expired
    apply busy
    intro p f same
    obtain ⟨_, rfl⟩ := Prod.mk.inj (Option.some.inj same)
    exact expired

/-- A lease that is gone had expired or was ended. -/
theorem Move.lost {now e : T} {o : O} {cell : Cell O T} (moved : Move now (some (o, e)) cell)
    (gone : cell ≠ some (o, e)) : e ≤ now ∨ cell = none := by
  cases moved with
  | kept => exact absurd rfl gone
  | taken p f free => exact .inl (free o e rfl)
  | ended => exact .inr rfl

end Lease
