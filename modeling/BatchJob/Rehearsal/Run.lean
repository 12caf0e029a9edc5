import BatchJob.Job.Draft
import BatchJob.Rehearsal.Meanwhile

/-! Rehearsing a whole job, from its parts to what is left when it is over. -/
namespace BatchJob.Rehearsal
open Control Job

/-- A part is given as it is or made from a catalogue under some name. -/
inductive Part (α : Type) where
  | given (script : α)
  | named (catalogue : Catalogue Settings α) (name : String)

/-- All that is to happen. With `sharedPool` the endpoint pool is made beforehand; `isLive` tells that
the job has a live clock. -/
structure Script where
  settings : Settings
  vars : List (String × String)
  source : Option (Part SourceScript)
  executor : Option (Part ExecutorScript)
  hooks : List (Stage × Part HookScript)
  endpoints : List Endpoint
  sharedPool : Bool
  isLive : Bool
  before : List Action
  after : List Action

/-- What was to be seen. -/
structure Performance where
  before : List Effect
  first : Snapshot
  result : Option (Except JobError Report)
  crash : Option String
  report : Option Report
  after : List (Effect × Snapshot)
  site : Site

abbrev JobDraft := Draft SourceScript ExecutorScript HookScript

namespace Script

def addSource (d : JobDraft) : Option (Part SourceScript) → Except String JobDraft
  | none => .ok d
  | some (.given s) => .ok (d.withSource s)
  | some (.named c name) => d.withSourceNamed c name

def addExecutor (d : JobDraft) : Option (Part ExecutorScript) → Except String JobDraft
  | none => .ok d
  | some (.given s) => .ok (d.withExecutor s)
  | some (.named c name) => d.withExecutorNamed c name

def addHook (d : JobDraft) : Stage × Part HookScript → Except String JobDraft
  | (stage, .given s) => .ok (d.withHook stage s)
  | (stage, .named c name) => d.withHookNamed c stage name

def addEndpoints (d : JobDraft) (endpoints : List Endpoint) (shared : Bool) : Except String JobDraft :=
  if shared then (Endpoint.Pool.build endpoints d.settings.endpoints).map d.withPool
  else .ok (d.withEndpoints endpoints)

def draft (s : Script) : Except String JobDraft := do
  let d ← addSource (.start s.settings) s.source
  let d ← addExecutor d s.executor
  let d ← s.hooks.foldlM addHook d
  let d ← addEndpoints d s.endpoints s.sharedPool
  return s.vars.foldl (fun d v => d.withVariable v.1 v.2) d

def assemble (s : Script) (fs : Files) :
    Except JobError (Assembly SourceScript ExecutorScript HookScript) := do
  (← s.draft.mapError .configuration).build fs

def site (s : Script) (fs : Files) (a : Assembly SourceScript ExecutorScript HookScript) : Site where
  settings := s.settings
  files := fs
  backing := .ofDir s.settings.spillDir
  desk := ⟨a.pool, .start false, 0⟩
  deskShared := s.sharedPool
  timing := .start s.isLive s.sharedPool
  watcher := .start
  errand := none
  source := a.source
  executor := a.executor
  calls := []
  notes := []

def snapshot (p : Play) : Snapshot := p.panel.state.snapshot p.now

/-- The effects of actions with the snapshots after them. -/
def follow (p : Play) : List Action → List (Effect × Snapshot) × Play
  | [] => ([], p)
  | a :: rest =>
    let (effect, p) := p.act a
    let (effects, q) := follow p rest
    ((effect, snapshot p) :: effects, q)

def patience : Nat := Nat.pow 2 60

def perform (s : Script) (fs : Files) : Except JobError Performance := do
  let a ← s.assemble fs
  let play : Play := ⟨.fresh s.settings.threadCount, s.site fs a⟩
  let (before, play) := play.actAll s.before
  let first := snapshot play
  let (run, play) := a.job.run (Play.surroundings a.hooks) patience play
  let report := play.panel.state.report
  let (after, play) := follow play s.after
  return ⟨before, first, run.result?, run.crash?, report, after, play.rest⟩

end Script
end BatchJob.Rehearsal
