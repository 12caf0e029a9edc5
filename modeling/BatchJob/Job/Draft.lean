import BatchJob.Job.Run
import BatchJob.Catalogue

/-! Putting a job together from its parts. -/
namespace BatchJob.Job

/-- The parts given so far. Sources, executors and hooks may be of any kind. -/
structure Draft (α β γ : Type) where
  settings : Settings
  vars : Text.Table
  source : Option α
  executor : Option β
  hooks : Stage → Option γ
  endpoints : List Endpoint
  pool : Option Endpoint.Pool

/-- A complete job. -/
structure Assembly (α β γ : Type) where
  job : Ready
  source : α
  executor : β
  hooks : Stage → Option γ
  pool : Endpoint.Pool

namespace Draft
variable {α β γ : Type}

def start (settings : Settings) : Draft α β γ := ⟨settings, .empty, none, none, fun _ => none, [], none⟩

def withVariable (d : Draft α β γ) (key value : String) : Draft α β γ :=
  { d with vars := d.vars.put key value }

def withSource (d : Draft α β γ) (source : α) : Draft α β γ := { d with source := some source }

def withExecutor (d : Draft α β γ) (executor : β) : Draft α β γ :=
  { d with executor := some executor }

def withHook (d : Draft α β γ) (stage : Stage) (hook : γ) : Draft α β γ :=
  { d with hooks := fun s => if s = stage then some hook else d.hooks s }

def withSourceNamed (d : Draft α β γ) (c : Catalogue Settings α) (name : String) :
    Except String (Draft α β γ) :=
  (c.make name d.settings).map d.withSource

def withExecutorNamed (d : Draft α β γ) (c : Catalogue Settings β) (name : String) :
    Except String (Draft α β γ) :=
  (c.make name d.settings).map d.withExecutor

def withHookNamed (d : Draft α β γ) (c : Catalogue Settings γ) (stage : Stage) (name : String) :
    Except String (Draft α β γ) :=
  (c.make name d.settings).map (d.withHook stage)

def withEndpoints (d : Draft α β γ) (endpoints : List Endpoint) : Draft α β γ :=
  { d with endpoints := d.endpoints ++ endpoints }

/-- An endpoint pool that is there already is used in place of the endpoints. -/
def withPool (d : Draft α β γ) (pool : Endpoint.Pool) : Draft α β γ := { d with pool := some pool }

def endpointPool (d : Draft α β γ) : Except String Endpoint.Pool :=
  match d.pool with
  | some pool => .ok pool
  | none => Endpoint.Pool.build d.endpoints d.settings.endpoints

def required {δ : Type} (part : Option δ) (problem : String) : Except String δ :=
  match part with
  | some a => .ok a
  | none => .error problem

def staging (c : Settings) (fs : Files) : Except JobError Queue.Staging :=
  (Queue.Staging.build c.spillToDisk c.spillMaxInMemory c.spillDir fs).mapError .ofQueue

/-- The settings have to make sense, and no part may be missing. -/
def parts (d : Draft α β γ) (fs : Files) : Except String (α × β × Endpoint.Pool) := do
  if let some problem := d.settings.problem? fs then throw problem
  let source ← required d.source "an identifier source is required"
  let executor ← required d.executor "a unit executor is required"
  let pool ← d.endpointPool
  return (source, executor, pool)

def build (d : Draft α β γ) (fs : Files) : Except JobError (Assembly α β γ) := do
  let (source, executor, pool) ← (d.parts fs).mapError .configuration
  let queue ← staging d.settings fs
  return ⟨⟨d.settings, d.vars, queue⟩, source, executor, d.hooks, pool⟩

end Draft
end BatchJob.Job
