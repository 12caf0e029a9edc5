import BatchJob.Endpoint.Desk
import BatchJob.Job.Stage
import BatchJob.Queue.Ring
import BatchJob.Worker.Task

/-! What keeps a job from being built, and what a run can fail with. -/
namespace BatchJob.Job

inductive JobError where
  | configuration (text : String)
  | refused (refusal : Endpoint.Refusal)
  | unitFailed (identifier detail : String)
  | queue (error : Queue.QueueError)
  | pool (error : Worker.PoolError)
  | source (text : String)
  | hook (stage : Stage) (text : String)
  | internal (text : String)
  deriving DecidableEq, Repr

namespace JobError

def message : JobError → String
  | configuration text => "configuration error: " ++ text
  | refused refusal => refusal.message
  | unitFailed identifier detail => "unit `" ++ identifier ++ "` failed: " ++ detail
  | queue error => "staging queue error: " ++ error.message
  | pool error => "worker pool error: " ++ error.message
  | source text => "identifier source error: " ++ text
  | hook stage text => stage.name ++ " hook failed: " ++ text
  | internal text => "internal error: " ++ text

/-- A queue with wrong settings is a fault of the job's settings. -/
def ofQueue : Queue.QueueError → JobError
  | .configuration text => configuration text
  | error => queue error

end JobError
end BatchJob.Job
