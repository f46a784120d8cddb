import Mathlib.Data.List.Basic

set_option autoImplicit false

inductive Json
  | null
  | bool (value : Bool)
  /-- A number, by its literal. -/
  | number (literal : String)
  | string (text : String)
  | array (items : List Json)
  /-- The members in the order of the text; a name may come twice. -/
  | object (members : List (String × Json))

namespace Json

inductive ReadError
  | attributeError
  | typeError
deriving DecidableEq

/-- The value under a name: the last member of that name counts. -/
def member (members : List (String × Json)) (name : String) : Option Json :=
  members.reverse.lookup name

def get (value : Json) (name : String) : Except ReadError (Option Json) :=
  match value with
  | .object members => .ok (member members name)
  | _ => .error .attributeError

def getD (value : Json) (name : String) (default : Json) : Except ReadError Json :=
  (value.get name).map fun found => found.getD default

/-- `iter(value)`: of an object its names, of a string its characters. -/
def iter (value : Json) : Except ReadError (List Json) :=
  match value with
  | .array items => .ok items
  | .object members => .ok ((members.map Prod.fst).dedup.map .string)
  | .string text => .ok (text.toList.map fun c => .string c.toString)
  | _ => .error .typeError

/-- `value == text`, where the value may be missing. -/
def isString (value : Option Json) (text : String) : Bool :=
  match value with
  | some (.string found) => found == text
  | _ => false

theorem isString_iff {value : Option Json} {text : String} :
    isString value text = true ↔ value = some (.string text) := by
  unfold isString
  split
  · rename_i found
    rw [beq_iff_eq, Option.some.injEq, Json.string.injEq]
  · rename_i hnot
    exact iff_of_false (by decide) (fun heq => hnot text heq)

@[simp] theorem get_object (members : List (String × Json)) (name : String) :
    (object members).get name = .ok (member members name) := rfl

theorem get_ok_iff {value : Json} (name : String) :
    (∃ found, value.get name = .ok found) ↔ ∃ members, value = .object members := by
  cases value with
  | object members => exact iff_of_true ⟨_, rfl⟩ ⟨members, rfl⟩
  | _ =>
    refine iff_of_false ?_ ?_
    · rintro ⟨found, h⟩
      cases h
    · rintro ⟨members, h⟩
      cases h

end Json
