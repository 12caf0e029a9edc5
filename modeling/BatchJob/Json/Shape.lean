import BatchJob.Json.Basic
import BatchJob.Text.Numeral

/-! Reading typed values out of JSON. Every reader gives `none` on a value of another shape. -/
namespace BatchJob.Json

def natBelow? (limit : Nat) : Json → Option Nat
  | .nat n => if n < limit then some n else none
  | _ => none

def word32? : Json → Option Nat := natBelow? Text.limit32

def word64? : Json → Option Nat := natBelow? Text.limit64

def bool? : Json → Option Bool
  | .bool b => some b
  | _ => none

def text? : Json → Option String
  | .str s => s
  | _ => none

def nullable {α : Type} (read : Json → Option α) : Json → Option (Option α)
  | .null => some none
  | v => (read v).map some

def list? {α : Type} (read : Json → Option α) : Json → Option (List α)
  | .arr items => items.mapM read
  | _ => none

def field? (fields : List (Option String × Json)) (name : String) : Option (Option Json) :=
  match fields.filter fun f => f.1 = some name with
  | [] => some none
  | [f] => some (some f.2)
  | _ => none

/-- The values of a record by field, also when they are given in a row without their names. Fields
that the record does not have are skipped. -/
def fields? (names : List String) : Json → Option (List (Option Json))
  | .obj fields => if fields.any (·.1.isNone) then none else names.mapM (field? fields)
  | .arr items =>
    if items.length ≤ names.length then
      some (items.map some ++ List.replicate (names.length - items.length) none)
    else none
  | _ => none

/-- A row of values without names has to be complete. -/
def completeFields? (names : List String) : Json → Option (List (Option Json))
  | .arr items => if items.length = names.length then some (items.map some) else none
  | v => fields? names v

def closedFields? (names : List String) : Json → Option (List (Option Json))
  | .obj fields =>
    if fields.all fun f => f.1.any names.contains then completeFields? names (.obj fields) else none
  | v => completeFields? names v

def required {α : Type} (read : Json → Option α) (v : Option Json) : Option α := v.bind read

def orElse {α : Type} (read : Json → Option α) (default : α) : Option Json → Option α
  | none => some default
  | some v => read v

/-- The name of an alternative with its content: a bare name has none. -/
def alternative? : Json → Option (String × Option Json)
  | .str (some name) => some (name, none)
  | .obj [(some name, content)] => some (name, some content)
  | _ => none

/-- An alternative without content is its bare name, or a record whose only field is `null`. -/
def bareName? (v : Json) : Option String :=
  match alternative? v with
  | some (name, none) => some name
  | some (name, some .null) => some name
  | _ => none

end BatchJob.Json
