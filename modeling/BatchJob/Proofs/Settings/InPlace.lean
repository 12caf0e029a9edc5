import BatchJob.Proofs.Settings.Assignments
import BatchJob.Proofs.Text.Keys

/-! Settings that are changed in place, by one entry. Its value is read before anything is written. So an entry that is
no setting or cannot be read leaves everything as it was, and any other writes one field, whatever was there before. -/
namespace BatchJob.Settings
open Text

/-- The names under which settings can be given, for those who look for them among other names. -/
def names : List String :=
  ["THREAD-COUNT", "BATCH-SIZE", "BATCH-DELIMITER", "FAIL-ON-ERROR", "QUEUE-SIZE", "IN-FLIGHT-LIMIT", "SPILL-TO-DISK",
    "SPILL-MAX-IN-MEMORY", "SPILL-DIR", "ENDPOINT-POLICY", "ENDPOINT-RETRY-LIMIT", "ENDPOINT-RETRY-INTERVAL",
    "ENDPOINT-WAIT-ATTEMPTS", "ENDPOINT-REMOVE-AFTER", "UNIT-RETRY-LIMIT", "UNIT-RETRY-INTERVAL",
    "UNIT-RETRY-MESSAGES", "COMMAND-FILE", "COMMAND-POLL-INTERVAL-MS", "MONITOR-INTERVAL-MS", "RATE-SAMPLES",
    "SLOWEST-UNITS", "DRAIN-TIMEOUT", "HOOKS-WHEN-EMPTY"]

/-- Applies an entry to the settings in place. The answer is whether its name is one of a setting. -/
def enter (name value : String) : ExceptT String (StateM Settings) Bool := do
  match Key.ofName? (normalizeKey name) with
  | none => return false
  | some key =>
    match key.kind.read (trim value) with
    | none => throw (key.kind.complaint (normalizeKey name) (trim value))
    | some v =>
      modify fun s => s.set key v
      return true

variable {name value : String} {key : Key}

theorem set_set (s : Settings) (key : Key) (v w : key.kind.Value) : (s.set key v).set key w = s.set key w := by
  cases key <;> rfl

end BatchJob.Settings
