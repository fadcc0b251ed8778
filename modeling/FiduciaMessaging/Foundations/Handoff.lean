import Mathlib.Data.Set.Basic
import Mathlib.Logic.Relation

/-! Handing items from one store to another when no transaction spans both.
An item is accepted by the first store, waits there, and may stop waiting only
once the second store has it. -/
namespace Handoff

variable {K : Type}

structure Stores (K : Type) where
  accepted : Set K
  waiting : Set K
  delivered : Set K

/- A step of the pair: what is newly accepted waits, the second store only
grows, and what stops waiting has been delivered. -/
structure Move (x y : Stores K) : Prop where
  accepts : y.accepted ⊆ x.accepted ∪ y.waiting
  keeps : x.delivered ⊆ y.delivered
  discharges : x.waiting ⊆ y.waiting ∪ y.delivered

/- Every accepted item is in one of the two stores. -/
def Stores.Lossless (x : Stores K) : Prop := x.accepted ⊆ x.waiting ∪ x.delivered

theorem Move.lossless {x y : Stores K} (move : Move x y) (before : x.Lossless) : y.Lossless := by
  intro k accepted
  rcases move.accepts accepted with old | waiting
  · rcases before old with waiting | delivered
    · exact move.discharges waiting
    · exact .inr (move.keeps delivered)
  · exact .inl waiting

theorem lossless_of_moves {x y : Stores K} (moves : Relation.ReflTransGen Move x y)
    (before : x.Lossless) : y.Lossless := by
  induction moves with
  | refl => exact before
  | tail _ move ih => exact move.lossless ih

end Handoff
