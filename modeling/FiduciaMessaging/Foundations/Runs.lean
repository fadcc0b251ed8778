import Mathlib.Logic.Relation

/-! Runs of a machine given by a partial step function. A label that is not
enabled in a state has no step there; the order of labels is arbitrary, so an
interleaving of several parties is a list of their labels. -/
namespace Runs

variable {S A : Type}

/-- Follow the labels one after another, as long as each is enabled. -/
def run (step : S → A → Option S) : S → List A → Option S
  | s, [] => some s
  | s, a :: rest => (step s a).bind (fun t => run step t rest)

theorem run_cons (step : S → A → Option S) (s : S) (a : A) (rest : List A) :
    run step s (a :: rest) = (step s a).bind (fun t => run step t rest) := rfl

theorem run_append (step : S → A → Option S) (s : S) (as bs : List A) :
    run step s (as ++ bs) = (run step s as).bind (fun t => run step t bs) := by
  induction as generalizing s with
  | nil => rfl
  | cons a as ih =>
    simp only [List.cons_append, run_cons, Option.bind_assoc]
    exact congrArg (step s a).bind (funext fun t => ih t)

/-- The states reached from `s` by steps whose source and label satisfy `ok`. -/
inductive Reaches (step : S → A → Option S) (ok : S → A → Prop) (s : S) : S → Prop where
  | refl : Reaches step ok s s
  | tail {t u : S} {a : A} : Reaches step ok s t → ok t a → step t a = some u →
      Reaches step ok s u

section Reaches

variable {step : S → A → Option S} {ok ok' : S → A → Prop} {s t u : S}

theorem Reaches.trans (first : Reaches step ok s t) (second : Reaches step ok t u) :
    Reaches step ok s u := by
  induction second with
  | refl => exact first
  | tail _ allowed taken ih => exact ih.tail allowed taken

theorem Reaches.mono (reached : Reaches step ok s t) (weaker : ∀ x a, ok x a → ok' x a) :
    Reaches step ok' s t := by
  induction reached with
  | refl => exact .refl
  | tail _ allowed taken ih => exact ih.tail (weaker _ _ allowed) taken

/-- What holds at the start and survives every allowed step holds throughout. -/
theorem Reaches.invariant (Inv : S → Prop) (reached : Reaches step ok s t) (initial : Inv s)
    (preserved : ∀ x a y, Inv x → ok x a → step x a = some y → Inv y) : Inv t := by
  induction reached with
  | refl => exact initial
  | tail _ allowed taken ih => exact preserved _ _ _ ih allowed taken

/-- The same rule with an invariant already known at every source state. -/
theorem Reaches.invariant_given {Known : S → Prop} (Inv : S →
    Prop) (reached : Reaches step ok s t)
    (known : ∀ x, Reaches step ok s x → Known x) (initial : Inv s)
    (preserved : ∀ x a y, Known x → Inv x → ok x a → step x a = some y → Inv y) :
    Inv t := by
  induction reached with
  | refl => exact initial
  | tail before allowed taken ih => exact preserved _ _ _ (known _ before) ih allowed taken

/-- A view under which every allowed step is a step of `abstract` carries runs to runs. -/
theorem Reaches.simulates {B : Type} {abstract : B → B → Prop} (view : S → B)
    {Inv : S → Prop}
    (reached : Reaches step ok s t) (known : ∀ x, Reaches step ok s x → Inv x)
    (matched : ∀ x a y, Inv x → ok x a → step x a = some y → abstract (view x) (view y)) :
    Relation.ReflTransGen abstract (view s) (view t) := by
  induction reached with
  | refl => exact .refl
  | tail before allowed taken ih => exact ih.tail (matched _ _ _ (known _ before) allowed taken)

/-- A component that each step leaves alone or moves by a step of its own runs by itself. -/
theorem Reaches.component {S' B : Type} {step' : S' → B → Option S'} {ok' : S' → B → Prop}
    (part : S → S') (reached : Reaches step ok s t)
    (moves : ∀ x a y, ok x a → step x a = some y →
      part y = part x ∨ ∃ b, ok' (part x) b ∧ step' (part x) b = some (part y)) :
    Reaches step' ok' (part s) (part t) := by
  induction reached with
  | refl => exact .refl
  | tail _ allowed taken ih =>
    rcases moves _ _ _ allowed taken with same | ⟨b, allowed', taken'⟩
    · exact same ▸ ih
    · exact ih.tail allowed' taken'

/-- A run all of whose labels are allowed wherever they occur reaches its end. -/
theorem reaches_of_run (ok : S → A → Prop) (as : List A) (taken : run step s as = some t)
    (allowed : ∀ x, ∀ a ∈ as, ok x a) : Reaches step ok s t := by
  induction as generalizing s with
  | nil => exact Option.some.inj taken ▸ .refl
  | cons a as ih =>
    obtain ⟨x, first, rest⟩ := Option.bind_eq_some_iff.mp taken
    have tail := ih rest (fun y b member => allowed y b (List.mem_cons_of_mem _ member))
    exact (Reaches.refl.tail (allowed s a List.mem_cons_self) first).trans tail

/-- A property true at one end of a run and false at the other is lost at some step. -/
theorem Reaches.exists_step_lost (P : S → Prop) (reached : Reaches step ok s t) (before : P s)
    (after : ¬ P t) : ∃ x a y, Reaches step ok s x ∧ ok x a ∧ step x a = some y ∧
      Reaches step ok y t ∧ P x ∧ ¬ P y := by
  induction reached with
  | refl => exact absurd before after
  | @tail x y a path allowed taken ih =>
    by_cases kept : P x
    · exact ⟨x, a, y, path, allowed, taken, .refl, kept, after⟩
    · obtain ⟨u, b, v, front, permitted, lost, back, holds, fails⟩ := ih kept
      exact ⟨u, b, v, front, permitted, lost, back.tail allowed taken, holds, fails⟩

end Reaches

/-- An entry of a grown trace stands in its old part or in what was appended. -/
theorem trace_split {E : Type} {old new before after : List E} {e : E}
    (split : old ++ new = before ++ e :: after) :
    (∃ rest, old = before ++ e :: rest) ∨ ∃ mid, before = old ++ mid ∧
    new = mid ++ e :: after := by
  rcases List.append_eq_append_iff.mp split with ⟨mid, ahead, rest⟩ | ⟨rest, behind, ahead⟩
  · exact .inr ⟨mid, ahead, rest⟩
  · cases rest with
    | nil => exact .inr ⟨[], by simpa using behind.symm, ahead.symm⟩
    | cons x rest =>
      obtain ⟨rfl, _⟩ := List.cons.inj ahead
      exact .inl ⟨rest, behind⟩

/-- The machine that also refuses the steps a check rejects. -/
def guarded (step : S → A → Option S) (check : S → A → Bool) (s : S) (a : A) : Option S :=
  if check s a then step s a else none

theorem reaches_of_guarded {step : S → A → Option S} {check : S → A →
    Bool} {s t : S} {as : List A}
    (taken : run (guarded step check) s as = some t) :
    Reaches step (fun x a => check x a = true) s t := by
  induction as generalizing s with
  | nil => exact Option.some.inj taken ▸ .refl
  | cons a as ih =>
    obtain ⟨x, first, rest⟩ := Option.bind_eq_some_iff.mp taken
    unfold guarded at first
    split at first
    · rename_i passes
      have one : Reaches step (fun x a => check x a = true) s x := .tail .refl passes first
      exact one.trans (ih rest)
    · contradiction

/-- A run of the refusing machine is a run. -/
theorem run_of_guarded {step : S → A → Option S} {check : S → A →
    Bool} {s t : S} {as : List A}
    (taken : run (guarded step check) s as = some t) : run step s as = some t := by
  induction as generalizing s with
  | nil => exact taken
  | cons a as ih =>
    obtain ⟨x, first, rest⟩ := Option.bind_eq_some_iff.mp taken
    unfold guarded at first
    split at first
    · rw [run_cons, first]
      exact ih rest
    · contradiction

/-- What the steps of a run add up to. -/
def accumulated (step : S → A → Option S) (gain : S → A → S → Nat) : S → List A → Nat
  | _, [] => 0
  | s, a :: rest =>
    match step s a with
    | some t => gain s a t + accumulated step gain t rest
    | none => 0

section Accumulated

variable {step : S → A → Option S} {gain spend : S → A → S → Nat} {s t : S} {as : List A}

theorem accumulated_cons {a : A} (taken : step s a = some t) :
    accumulated step gain s (a :: as) = gain s a t + accumulated step gain t as := by
  simp only [accumulated, taken]

/-- An account that each step keeps in balance is in balance after a run. -/
theorem accumulated_balance (value : S → Nat)
    (balance : ∀ x a y, step x a = some y → value y + spend x a y = value x + gain x a y)
    (taken : run step s as = some t) :
    value t + accumulated step spend s as = value s + accumulated step gain s as := by
  induction as generalizing s with
  | nil =>
    obtain rfl := Option.some.inj taken
    rfl
  | cons a as ih =>
    obtain ⟨x, first, rest⟩ := Option.bind_eq_some_iff.mp taken
    have now := balance s a x first
    have later := ih rest
    rw [accumulated_cons first, accumulated_cons first]
    omega

/-- An account that grows by what each step gains bounds what a run gains. -/
theorem accumulated_le {Inv : S → Prop} (value : S → Nat) (start : Inv s)
    (keeps : ∀ x a y, Inv x → step x a = some y → Inv y)
    (covers : ∀ x a y, Inv x → step x a = some y → value x + gain x a y ≤ value y)
    (taken : run step s as = some t) : value s + accumulated step gain s as ≤ value t := by
  induction as generalizing s with
  | nil =>
    obtain rfl := Option.some.inj taken
    exact Nat.le_refl _
  | cons a as ih =>
    obtain ⟨x, first, rest⟩ := Option.bind_eq_some_iff.mp taken
    have now := covers s a x start first
    have later := ih (keeps s a x start first) rest
    rw [accumulated_cons first]
    omega

/-- Nothing is spent in a run exactly if it is a run of the machine that refuses to spend. -/
theorem accumulated_eq_zero_iff {check : S → A → Bool}
    (free : ∀ x a y, step x a = some y → (spend x a y = 0 ↔ check x a = true))
    (taken : run step s as = some t) :
    accumulated step spend s as = 0 ↔ run (guarded step check) s as = some t := by
  induction as generalizing s with
  | nil => exact ⟨fun _ => taken, fun _ => rfl⟩
  | cons a as ih =>
    obtain ⟨x, first, rest⟩ := Option.bind_eq_some_iff.mp taken
    rw [accumulated_cons first, Nat.add_eq_zero_iff, free s a x first, ih rest, run_cons]
    cases passes : check s a with
    | true => simp [guarded, passes, first]
    | false => simp [guarded, passes]

end Accumulated

end Runs
