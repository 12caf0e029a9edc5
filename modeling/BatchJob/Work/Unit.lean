import BatchJob.Json.Shape
import BatchJob.Text.Table

/-! Units of work: one identifier, or several joined into a batch. -/
namespace BatchJob.Work
open Text

/-- What all units of a job carry along. -/
structure Request where
  batchRef : Option String
  vars : Table
  deriving DecidableEq, Repr

namespace Request

def plain : Request := ⟨none, .empty⟩

def toJson (r : Request) : Json :=
  .record [("batch_ref", .ofOption .ofText r.batchRef),
    ("variables", .record (r.vars.entries.map fun e => (e.1, .ofText e.2)))]

def entry? (field : Option String × Json) : Option (String × String) := do
  return (← field.1, ← Json.text? field.2)

/-- A variable named twice has the later value. -/
def vars? : Json → Option Table
  | .obj fields => (fields.mapM entry?).map Table.ofList
  | _ => none

def ofJson? (v : Json) : Option Request := do
  match ← Json.completeFields? ["batch_ref", "variables"] v with
  | [batchRef, vars] =>
    return ⟨← Json.orElse (Json.nullable Json.text?) none batchRef,
      ← Json.required vars? vars⟩
  | _ => none

end Request

end BatchJob.Work

namespace BatchJob

/-- `items` is the number of identifiers in the unit. -/
structure WorkUnit where
  id : Nat
  identifier : String
  items : Nat
  request : Work.Request
  deriving DecidableEq, Repr

namespace WorkUnit

def single (id : Nat) (identifier : String) (request : Work.Request) : WorkUnit :=
  ⟨id, identifier, 1, request⟩

def batch (id : Nat) (identifiers : List String) (delimiter : String) (request : Work.Request) :
    WorkUnit :=
  ⟨id, delimiter.intercalate identifiers, identifiers.length, request⟩

@[simp] theorem items_batch (id : Nat) (ids : List String) (d : String) (r : Work.Request) :
    (batch id ids d r).items = ids.length := rfl

end WorkUnit
end BatchJob
