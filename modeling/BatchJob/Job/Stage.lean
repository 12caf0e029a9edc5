import BatchJob.Json.Shape

/-! The three points of a job at which a hook can run. -/
namespace BatchJob.Job

inductive Stage where
  | init | preBatch | postBatch
  deriving DecidableEq, Repr

namespace Stage

def name : Stage → String
  | init => "init"
  | preBatch => "pre-batch"
  | postBatch => "post-batch"

def all : List Stage := [init, preBatch, postBatch]

def ofName? (name : String) : Option Stage := all.find? (·.name = name)

@[simp] theorem ofName?_name (s : Stage) : ofName? s.name = some s := by cases s <;> rfl

def toJson (s : Stage) : Json := .ofText s.name

def ofJson? (v : Json) : Option Stage := (Json.bareName? v).bind ofName?

end Stage
end BatchJob.Job
