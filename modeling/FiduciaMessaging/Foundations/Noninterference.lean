import Mathlib.Data.List.Basic

/-! Noninterference of a server that answers calls of several owners. The run of
all calls is compared with the run of one owner's calls alone; a relation between
the two states that unwinds shows when the owner's answers agree. -/
namespace Noninterference

variable {S A O : Type} {step : S → A → S × O} {own : A → Bool} {clear : S → A → Prop}
  {Same : S → S → Prop} {s t : S}

/-- The state after a list of calls. -/
def after (step : S → A → S × O) (s : S) (calls : List A) : S :=
  calls.foldl (fun x a => (step x a).1) s

/-- The answers given to the owner's calls. -/
def answers (step : S → A → S × O) (own : A → Bool) : S → List A → List O
  | _, [] => []
  | s, a :: rest =>
    if own a then (step s a).2 :: answers step own (step s a).1 rest
    else answers step own (step s a).1 rest

/-- Each of the owner's calls meets a state that is clear for it. -/
def Unaffected (step : S → A → S × O) (own : A → Bool) (clear : S → A → Prop) (s : S)
    (calls : List A) : Prop :=
  ∀ before a rest, calls = before ++ a :: rest → own a = true → clear (after step s before) a

theorem unaffected_nil : Unaffected step own clear s [] := by
  intro before a rest split
  simp at split

theorem unaffected_cons {a : A} {rest : List A} : Unaffected step own clear s (a :: rest) ↔
    (own a = true → clear s a) ∧ Unaffected step own clear (step s a).1 rest := by
  constructor
  · intro all
    constructor
    · intro mine
      exact all [] a rest rfl mine
    · intro before b tail split mine
      exact all (a :: before) b tail (by rw [split]; rfl) mine
  · rintro ⟨head, tail⟩ before b back split mine
    cases before with
    | nil =>
      obtain ⟨rfl, rfl⟩ := List.cons.inj split
      exact head mine
    | cons c before =>
      obtain ⟨rfl, later⟩ := List.cons.inj split
      exact tail before b back later mine

/-- `Same` survives the others' calls and the owner's clear calls, and tells the answers
of an owner's call apart exactly when the call is not clear. -/
structure Unwinding (step : S → A → S × O) (own : A → Bool) (clear : S → A → Prop)
    (Same : S → S → Prop) : Prop where
  foreign : ∀ s t a, Same s t → own a = false → Same (step s a).1 t
  answer : ∀ s t a, Same s t → own a = true → clear s a → (step s a).2 = (step t a).2
  same : ∀ s t a, Same s t → own a = true → clear s a → Same (step s a).1 (step t a).1
  seen : ∀ s t a, Same s t → own a = true → ¬ clear s a → (step s a).2 ≠ (step t a).2

/-- The owner's answers with and without the others agree exactly in unaffected runs. -/
theorem Unwinding.answers_filter_iff (unwinding : Unwinding step own clear Same) (calls : List A)
    (related : Same s t) : answers step own s calls = answers step own t (calls.filter own) ↔
      Unaffected step own clear s calls := by
  induction calls generalizing s t with
  | nil => simp [answers, unaffected_nil]
  | cons a rest ih =>
    rw [unaffected_cons]
    cases mine : own a with
    | false =>
      rw [List.filter_cons_of_neg (by simp [mine]), answers, mine, if_neg Bool.false_ne_true,
        ih (unwinding.foreign s t a related mine)]
      simp
    | true =>
      rw [List.filter_cons_of_pos mine, answers, answers, mine, if_pos rfl, if_pos rfl,
        List.cons.injEq]
      by_cases visible : clear s a
      · have answer := unwinding.answer s t a related mine visible
        have next := unwinding.same s t a related mine visible
        simp [answer, visible, ih next]
      · simp [unwinding.seen s t a related mine visible, visible]

end Noninterference
