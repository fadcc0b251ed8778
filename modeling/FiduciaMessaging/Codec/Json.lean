import FiduciaMessaging.External
import FiduciaMessaging.Foundations.SortedMap
import Mathlib.Data.String.Basic

/-! JSON texts and trees, and the two limits of reading: the nesting a reader follows and
the map an object becomes. -/
namespace FiduciaMessaging

/-- Why a reader refuses a text. -/
inductive ReadError where
  | malformed
  | recursionLimit
  | invalidType
  | invalidValue
  | invalidLength (length : Nat)
  | missingField (name : String)
  | duplicateField (name : String)
  | trailingCharacters
  deriving DecidableEq

/- A value as it stands in a text: a tree, its objects with their fields in the order they
stand, or a text that no `Value` holds, such as a number beyond `f64`. -/
inductive Field where
  | tree (value : Value)
  | beyond (text : List UInt8)

/- The top level of a text. -/
inductive Document where
  | object (fields : List (String × Field))
  | array (items : List Field)
  | scalar (value : Field)

/-- What `serde_json`, `uuid` and `chrono` do with text. -/
class Serde where
  /-- The top level of a slice that is one JSON text, at any depth. -/
  scan : List UInt8 → Option Document
  /-- The compact text of an object with its fields in the given order. -/
  print : List (String × Field) → List UInt8
  /-- The error's text, which names the position in the slice. -/
  explain : ReadError → List UInt8 → String
  uuidText : Uuid → String
  readUuid : String → Option Uuid
  timeText : Timestamp → String
  readTime : String → Option Timestamp

/-- The nesting at which `serde_json`'s readers stop. -/
def recursionLimit : Nat := 128

mutual

/- How deep arrays and objects are nested. -/
def Value.depth : Value → Nat
  | .array items => depthItems items + 1
  | .object fields => depthFields fields + 1
  | _ => 0

def depthItems : List Value → Nat
  | [] => 0
  | item :: rest => max item.depth (depthItems rest)

def depthFields : List (String × Value) → Nat
  | [] => 0
  | (_, value) :: rest => max value.depth (depthFields rest)

end

mutual

/-- Reads a tree as a `Value`: each array or object takes one from what remains of the
nesting and fails at zero; an object's fields are collected by key. -/
def Value.read (remaining : Nat) : Value → Except ReadError Value
  | .array items =>
    if remaining - 1 = 0 then .error .recursionLimit
    else (readItems (remaining - 1) items).map Value.array
  | .object fields =>
    if remaining - 1 = 0 then .error .recursionLimit
    else (readFields (remaining - 1) fields).map (fun read => Value.object (SortedMap.ofList read))
  | .null => .ok .null
  | .bool b => .ok (.bool b)
  | .number n => .ok (.number n)
  | .string s => .ok (.string s)

def readItems (remaining : Nat) : List Value → Except ReadError (List Value)
  | [] => .ok []
  | item :: rest => do
    let first ← item.read remaining
    let others ← readItems remaining rest
    return first :: others

def readFields (remaining : Nat) : List (String × Value) →
    Except ReadError (List (String × Value))
  | [] => .ok []
  | (name, value) :: rest => do
    let first ← value.read remaining
    let others ← readFields remaining rest
    return (name, first) :: others

end

mutual

/- What the type `Value` guarantees: the keys of an object increase, and a number is
negative exactly when it is held as such. -/
def Value.WellFormed : Value → Prop
  | .array items => WellFormedItems items
  | .object fields => SortedMap.Sorted fields ∧ WellFormedFields fields
  | .number (.negInt n) => n < 0
  | _ => True

def WellFormedItems : List Value → Prop
  | [] => True
  | item :: rest => item.WellFormed ∧ WellFormedItems rest

def WellFormedFields : List (String × Value) → Prop
  | [] => True
  | (_, value) :: rest => value.WellFormed ∧ WellFormedFields rest

end

mutual

/- No number in the tree is a float. -/
def Value.Integral : Value → Prop
  | .array items => IntegralItems items
  | .object fields => IntegralFields fields
  | .number (.float _) => False
  | _ => True

def IntegralItems : List Value → Prop
  | [] => True
  | item :: rest => item.Integral ∧ IntegralItems rest

def IntegralFields : List (String × Value) → Prop
  | [] => True
  | (_, value) :: rest => value.Integral ∧ IntegralFields rest

end

/-- The outcome of reading within a nesting limit: all of it, or a refusal. -/
def within {A : Type} (depth remaining : Nat) (whole : A) : Except ReadError A :=
  if depth < remaining then .ok whole else .error .recursionLimit

theorem within_map {A B : Type} (f : A → B) {depth remaining : Nat} {whole : A} :
    (within depth remaining whole).map f = within depth remaining (f whole) := by
  unfold within
  split <;> rfl

/-- Two parts are read within a limit when both of them are. -/
theorem within_bind {A B C : Type} {first rest remaining : Nat} {a : A} {b : B}
    {f : A → B → C} :
    (do
      let x ← within first remaining a
      let y ← within rest remaining b
      return f x y) = within (max first rest) remaining (f a b) := by
  by_cases shallow : first < remaining
  · by_cases also : rest < remaining
    · simp [within, shallow, also, bind, Except.bind, pure, Except.pure]
    · simp [within, shallow, also, bind, Except.bind]
  · simp [within, shallow, bind, Except.bind]

theorem within_succ {A : Type} {depth remaining : Nat} {whole : A} :
    within depth (remaining - 1) whole = within (depth + 1) remaining whole := by
  have same : depth < remaining - 1 ↔ depth + 1 < remaining := by omega
  simp only [within, same]

theorem within_last {A : Type} {depth remaining : Nat} {whole : A} (last : remaining - 1 = 0) :
    within (depth + 1) remaining whole = .error .recursionLimit := by
  have deep : ¬ depth + 1 < remaining := by omega
  simp only [within, deep, if_false]

mutual

/-- A `Value` reads back as itself within the nesting the reader follows, and else not at all. -/
theorem read_eq : (value : Value) → value.WellFormed → (remaining : Nat) → 1 ≤ remaining →
    value.read remaining = within value.depth remaining value
  | .array items, formed, remaining, _ => by
    unfold Value.read
    split
    · rename_i last
      exact (within_last last).symm
    · rename_i more
      rw [readItems_eq items formed (remaining - 1) (by omega), within_map, within_succ]
      rfl
  | .object fields, formed, remaining, _ => by
    unfold Value.read
    split
    · rename_i last
      exact (within_last last).symm
    · rename_i more
      rw [readFields_eq fields formed.2 (remaining - 1) (by omega), within_map, within_succ,
        SortedMap.ofList_of_sorted formed.1]
      rfl
  | .null, _, _, positive => (if_pos positive).symm
  | .bool _, _, _, positive => (if_pos positive).symm
  | .number _, _, _, positive => (if_pos positive).symm
  | .string _, _, _, positive => (if_pos positive).symm

theorem readItems_eq : (items : List Value) → WellFormedItems items → (remaining : Nat) →
    1 ≤ remaining → readItems remaining items = within (depthItems items) remaining items
  | [], _, _, positive => (if_pos positive).symm
  | item :: rest, formed, remaining, positive => by
    unfold readItems
    rw [read_eq item formed.1 remaining positive, readItems_eq rest formed.2 remaining positive,
      within_bind]
    rfl

theorem readFields_eq : (fields : List (String × Value)) → WellFormedFields fields →
    (remaining : Nat) → 1 ≤ remaining →
    readFields remaining fields = within (depthFields fields) remaining fields
  | [], _, _, positive => (if_pos positive).symm
  | (name, value) :: rest, formed, remaining, positive => by
    unfold readFields
    rw [read_eq value formed.1 remaining positive, readFields_eq rest formed.2 remaining positive,
      within_bind]
    rfl

end

end FiduciaMessaging
