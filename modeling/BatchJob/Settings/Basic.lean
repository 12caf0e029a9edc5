import BatchJob.Endpoint.Basic
import BatchJob.Files
import BatchJob.Work.Attempts

/-! The settings of a job and of its worker pool. -/
namespace BatchJob

/-- Settings of a worker pool; `slowest` is how many of the slowest units it remembers. -/
structure Worker.Settings where
  workers : Nat
  depth : Nat
  stackSize : Nat
  slowest : Nat
  deriving DecidableEq, Repr

namespace Worker.Settings

def default : Settings := ⟨1, 100000, 2 * 1024 * 1024, 5⟩

def minStackSize : Nat := 64 * 1024

def problem? (s : Settings) : Option String :=
  if s.workers = 0 then some "worker_count must be greater than 0"
  else if s.depth = 0 then some "max_queue_depth must be greater than 0"
  else if s.stackSize < minStackSize then some "thread_stack_size must be at least 64 KiB"
  else none

def toJson (s : Settings) : Json :=
  .record [("worker_count", .nat s.workers), ("max_queue_depth", .nat s.depth),
    ("thread_stack_size", .nat s.stackSize), ("slowest_capacity", .nat s.slowest)]

def ofJson? (v : Json) : Option Settings := do
  match ← Json.completeFields? ["worker_count", "max_queue_depth", "thread_stack_size",
      "slowest_capacity"] v with
  | [workers, depth, stackSize, slowest] =>
    return ⟨← Json.required Json.word64? workers, ← Json.required Json.word64? depth,
      ← Json.required Json.word64? stackSize, ← Json.required Json.word64? slowest⟩
  | _ => none

end Worker.Settings

/-- Intervals are in seconds or, where the name says so, in milliseconds. -/
structure Settings where
  threadCount : Nat
  batchSize : Nat
  batchDelimiter : String
  failOnError : Bool
  queueSize : Nat
  inFlightLimit : Nat
  spillToDisk : Bool
  spillMaxInMemory : Nat
  spillDir : Option String
  endpointPolicy : Endpoint.Policy
  endpointRetryLimit : Nat
  endpointRetryInterval : Nat
  endpointWaitAttempts : Nat
  endpointRemoveAfter : Option Nat
  unitRetryLimit : Nat
  unitRetryInterval : Nat
  unitRetryMessages : List String
  commandFile : Option String
  commandPollMillis : Nat
  monitorMillis : Nat
  rateSamples : Nat
  slowestUnits : Nat
  drainTimeout : Nat
  hooksWhenEmpty : Bool
  deriving DecidableEq, Repr

namespace Settings

def default : Settings where
  threadCount := 1
  batchSize := 1
  batchDelimiter := ";"
  failOnError := true
  queueSize := 100000
  inFlightLimit := 1000
  spillToDisk := false
  spillMaxInMemory := 1000
  spillDir := none
  endpointPolicy := .roundRobin
  endpointRetryLimit := 3
  endpointRetryInterval := 60
  endpointWaitAttempts := 3
  endpointRemoveAfter := none
  unitRetryLimit := 2
  unitRetryInterval := 20
  unitRetryMessages := []
  commandFile := none
  commandPollMillis := 1000
  monitorMillis := 60000
  rateSamples := 10
  slowestUnits := 5
  drainTimeout := 60
  hooksWhenEmpty := false

def workers (s : Settings) : Worker.Settings :=
  { Worker.Settings.default with workers := s.threadCount, depth := s.queueSize, slowest := s.slowestUnits }

def endpoints (s : Settings) : Endpoint.Settings :=
  ⟨s.endpointPolicy, s.endpointRetryLimit, .ofSeconds s.endpointRetryInterval,
    s.endpointWaitAttempts, s.endpointRemoveAfter⟩

def retries (s : Settings) : Work.RetryPolicy :=
  ⟨s.endpointRetryLimit, s.unitRetryLimit, .ofSeconds s.unitRetryInterval, s.unitRetryMessages⟩

def commandPollInterval (s : Settings) : Duration := .ofMillis s.commandPollMillis

def monitorInterval (s : Settings) : Duration := .ofMillis s.monitorMillis

def drainInterval (s : Settings) : Duration := .ofSeconds s.drainTimeout

/-- Without a directory of their own, spilled entries go where temporary files do. -/
def hasSpillDir (s : Settings) (fs : Files) : Bool :=
  match s.spillDir with
  | some dir => fs.isDir dir
  | none => fs.hasTempDir

/-- The numbers that must not be zero, with their names. -/
def positives (s : Settings) : List (String × Nat) :=
  [("queue_size", s.queueSize), ("spill_max_in_memory", s.spillMaxInMemory),
    ("command_poll_interval_ms", s.commandPollMillis), ("monitor_interval_ms", s.monitorMillis),
    ("rate_samples", s.rateSamples)]

def notPositive (name : String) : String := name ++ " must be greater than 0"

def firstZero? (numbers : List (String × Nat)) : Option String :=
  (numbers.find? fun n => n.2 = 0).map fun n => notPositive n.1

def problem? (s : Settings) (fs : Files) : Option String :=
  firstZero? [("thread_count", s.threadCount), ("batch_size", s.batchSize)] <|>
  (if 1 < s.batchSize ∧ s.batchDelimiter = "" then
    some "batch_delimiter must not be empty when batch_size > 1" else none) <|>
  firstZero? s.positives <|>
  (if s.endpointRemoveAfter = some 0 then some (notPositive "endpoint_remove_after") else none) <|>
  (if s.spillToDisk ∧ !s.hasSpillDir fs then
    some ("spill directory " ++ s.spillDir.getD fs.tempDir ++ " does not exist") else none)

end Settings
end BatchJob
