import BatchJob.Settings.Basic
import BatchJob.Text.Basic

/-! The keys of the settings: by which names they go, what values they take, and how these are read
from plain text and from JSON. -/
namespace BatchJob.Settings
open Text

/-- What a value may be. -/
inductive Kind where
  | number64 | number32 | flag | text | place | limit32 | policy | texts
  deriving DecidableEq, Repr

namespace Kind

abbrev Value : Kind → Type
  | number64 => Nat
  | number32 => Nat
  | flag => Bool
  | text => String
  | place => Option String
  | limit32 => Option Nat
  | policy => Endpoint.Policy
  | texts => List String

instance (k : Kind) : DecidableEq k.Value := by cases k <;> exact inferInstance

def readFlag (value : String) : Option Bool :=
  if lower value ∈ ["true", "yes", "1", "on"] then some true
  else if lower value ∈ ["false", "no", "0", "off"] then some false
  else none

/-- The parts between commas, trimmed, without the empty ones. -/
def readTexts (value : String) : List String :=
  ((value.toList.splitOn ',').map fun part => String.ofList (trimChars part)).filter (· ≠ "")

def nonEmpty (value : String) : Option String := if value = "" then none else some value

def read : (k : Kind) → String → Option k.Value
  | number64, v => readUnsigned Text.limit64 v
  | number32, v => readUnsigned Text.limit32 v
  | flag, v => readFlag v
  | text, v => some v
  | place, v => some (nonEmpty v)
  | limit32, v => if v = "" then some none else (readUnsigned Text.limit32 v).map some
  | policy, v => (Endpoint.Policy.read v).toOption
  | texts, v => some (readTexts v)

/-- What is said about a text that cannot be read as the value of a key. -/
def complaint (k : Kind) (key value : String) : String :=
  match k, Endpoint.Policy.read value with
  | policy, .error e => e
  | _, _ => "invalid value `" ++ value ++ "` for " ++ key

def ofJson? : (k : Kind) → Json → Option k.Value
  | number64, v => Json.word64? v
  | number32, v => Json.word32? v
  | flag, v => Json.bool? v
  | text, v => Json.text? v
  | place, v => Json.nullable Json.text? v
  | limit32, v => Json.nullable Json.word32? v
  | policy, v => Endpoint.Policy.ofJson? v
  | texts, v => Json.list? Json.text? v

def toJson : (k : Kind) → k.Value → Json
  | number64, n => .nat n
  | number32, n => .nat n
  | flag, b => .bool b
  | text, s => .ofText s
  | place, s => .ofOption .ofText s
  | limit32, n => .ofOption .nat n
  | policy, p => p.toJson
  | texts, ss => .arr (ss.map .ofText)

end Kind

inductive Key where
  | threadCount | batchSize | batchDelimiter | failOnError | queueSize | inFlightLimit
  | spillToDisk | spillMaxInMemory | spillDir | endpointPolicy | endpointRetryLimit
  | endpointRetryInterval | endpointWaitAttempts | endpointRemoveAfter | unitRetryLimit
  | unitRetryInterval | unitRetryMessages | commandFile | commandPollMillis | monitorMillis
  | rateSamples | slowestUnits | drainTimeout | hooksWhenEmpty
  deriving DecidableEq, Repr

namespace Key

def all : List Key :=
  [threadCount, batchSize, batchDelimiter, failOnError, queueSize, inFlightLimit, spillToDisk,
    spillMaxInMemory, spillDir, endpointPolicy, endpointRetryLimit, endpointRetryInterval,
    endpointWaitAttempts, endpointRemoveAfter, unitRetryLimit, unitRetryInterval,
    unitRetryMessages, commandFile, commandPollMillis, monitorMillis, rateSamples, slowestUnits,
    drainTimeout, hooksWhenEmpty]

def name : Key → String
  | threadCount => "THREAD-COUNT"
  | batchSize => "BATCH-SIZE"
  | batchDelimiter => "BATCH-DELIMITER"
  | failOnError => "FAIL-ON-ERROR"
  | queueSize => "QUEUE-SIZE"
  | inFlightLimit => "IN-FLIGHT-LIMIT"
  | spillToDisk => "SPILL-TO-DISK"
  | spillMaxInMemory => "SPILL-MAX-IN-MEMORY"
  | spillDir => "SPILL-DIR"
  | endpointPolicy => "ENDPOINT-POLICY"
  | endpointRetryLimit => "ENDPOINT-RETRY-LIMIT"
  | endpointRetryInterval => "ENDPOINT-RETRY-INTERVAL"
  | endpointWaitAttempts => "ENDPOINT-WAIT-ATTEMPTS"
  | endpointRemoveAfter => "ENDPOINT-REMOVE-AFTER"
  | unitRetryLimit => "UNIT-RETRY-LIMIT"
  | unitRetryInterval => "UNIT-RETRY-INTERVAL"
  | unitRetryMessages => "UNIT-RETRY-MESSAGES"
  | commandFile => "COMMAND-FILE"
  | commandPollMillis => "COMMAND-POLL-INTERVAL-MS"
  | monitorMillis => "MONITOR-INTERVAL-MS"
  | rateSamples => "RATE-SAMPLES"
  | slowestUnits => "SLOWEST-UNITS"
  | drainTimeout => "DRAIN-TIMEOUT"
  | hooksWhenEmpty => "HOOKS-WHEN-EMPTY"

def field : Key → String
  | threadCount => "thread_count"
  | batchSize => "batch_size"
  | batchDelimiter => "batch_delimiter"
  | failOnError => "fail_on_error"
  | queueSize => "queue_size"
  | inFlightLimit => "in_flight_limit"
  | spillToDisk => "spill_to_disk"
  | spillMaxInMemory => "spill_max_in_memory"
  | spillDir => "spill_dir"
  | endpointPolicy => "endpoint_policy"
  | endpointRetryLimit => "endpoint_retry_limit"
  | endpointRetryInterval => "endpoint_retry_interval_secs"
  | endpointWaitAttempts => "endpoint_wait_attempts"
  | endpointRemoveAfter => "endpoint_remove_after"
  | unitRetryLimit => "unit_retry_limit"
  | unitRetryInterval => "unit_retry_interval_secs"
  | unitRetryMessages => "unit_retry_messages"
  | commandFile => "command_file"
  | commandPollMillis => "command_poll_interval_ms"
  | monitorMillis => "monitor_interval_ms"
  | rateSamples => "rate_samples"
  | slowestUnits => "slowest_units"
  | drainTimeout => "drain_timeout_secs"
  | hooksWhenEmpty => "hooks_when_empty"

abbrev kind : Key → Kind
  | threadCount => .number64
  | batchSize => .number64
  | batchDelimiter => .text
  | failOnError => .flag
  | queueSize => .number64
  | inFlightLimit => .number64
  | spillToDisk => .flag
  | spillMaxInMemory => .number64
  | spillDir => .place
  | endpointPolicy => .policy
  | endpointRetryLimit => .number32
  | endpointRetryInterval => .number64
  | endpointWaitAttempts => .number32
  | endpointRemoveAfter => .limit32
  | unitRetryLimit => .number32
  | unitRetryInterval => .number64
  | unitRetryMessages => .texts
  | commandFile => .place
  | commandPollMillis => .number64
  | monitorMillis => .number64
  | rateSamples => .number64
  | slowestUnits => .number64
  | drainTimeout => .number64
  | hooksWhenEmpty => .flag

def ofName? (name : String) : Option Key := all.find? (·.name = name)

theorem ofName?_name (k : Key) : ofName? k.name = some k := by cases k <;> rfl

end Key

def get (s : Settings) : (k : Key) → k.kind.Value
  | .threadCount => s.threadCount
  | .batchSize => s.batchSize
  | .batchDelimiter => s.batchDelimiter
  | .failOnError => s.failOnError
  | .queueSize => s.queueSize
  | .inFlightLimit => s.inFlightLimit
  | .spillToDisk => s.spillToDisk
  | .spillMaxInMemory => s.spillMaxInMemory
  | .spillDir => s.spillDir
  | .endpointPolicy => s.endpointPolicy
  | .endpointRetryLimit => s.endpointRetryLimit
  | .endpointRetryInterval => s.endpointRetryInterval
  | .endpointWaitAttempts => s.endpointWaitAttempts
  | .endpointRemoveAfter => s.endpointRemoveAfter
  | .unitRetryLimit => s.unitRetryLimit
  | .unitRetryInterval => s.unitRetryInterval
  | .unitRetryMessages => s.unitRetryMessages
  | .commandFile => s.commandFile
  | .commandPollMillis => s.commandPollMillis
  | .monitorMillis => s.monitorMillis
  | .rateSamples => s.rateSamples
  | .slowestUnits => s.slowestUnits
  | .drainTimeout => s.drainTimeout
  | .hooksWhenEmpty => s.hooksWhenEmpty

def set (s : Settings) : (k : Key) → k.kind.Value → Settings
  | .threadCount, v => { s with threadCount := v }
  | .batchSize, v => { s with batchSize := v }
  | .batchDelimiter, v => { s with batchDelimiter := v }
  | .failOnError, v => { s with failOnError := v }
  | .queueSize, v => { s with queueSize := v }
  | .inFlightLimit, v => { s with inFlightLimit := v }
  | .spillToDisk, v => { s with spillToDisk := v }
  | .spillMaxInMemory, v => { s with spillMaxInMemory := v }
  | .spillDir, v => { s with spillDir := v }
  | .endpointPolicy, v => { s with endpointPolicy := v }
  | .endpointRetryLimit, v => { s with endpointRetryLimit := v }
  | .endpointRetryInterval, v => { s with endpointRetryInterval := v }
  | .endpointWaitAttempts, v => { s with endpointWaitAttempts := v }
  | .endpointRemoveAfter, v => { s with endpointRemoveAfter := v }
  | .unitRetryLimit, v => { s with unitRetryLimit := v }
  | .unitRetryInterval, v => { s with unitRetryInterval := v }
  | .unitRetryMessages, v => { s with unitRetryMessages := v }
  | .commandFile, v => { s with commandFile := v }
  | .commandPollMillis, v => { s with commandPollMillis := v }
  | .monitorMillis, v => { s with monitorMillis := v }
  | .rateSamples, v => { s with rateSamples := v }
  | .slowestUnits, v => { s with slowestUnits := v }
  | .drainTimeout, v => { s with drainTimeout := v }
  | .hooksWhenEmpty, v => { s with hooksWhenEmpty := v }

@[simp] theorem get_set (s : Settings) (k : Key) (v : k.kind.Value) : (s.set k v).get k = v := by
  cases k <;> rfl

theorem get_set_of_ne (s : Settings) {k k' : Key} (v : k.kind.Value) (h : k' ≠ k) :
    (s.set k v).get k' = s.get k' := by
  cases k <;> cases k' <;> first | rfl | exact absurd rfl h

theorem ext_get {s t : Settings} (h : ∀ k, s.get k = t.get k) : s = t := by
  cases s
  cases t
  simp only [mk.injEq]
  exact ⟨h .threadCount, h .batchSize, h .batchDelimiter, h .failOnError, h .queueSize,
    h .inFlightLimit, h .spillToDisk, h .spillMaxInMemory, h .spillDir, h .endpointPolicy,
    h .endpointRetryLimit, h .endpointRetryInterval, h .endpointWaitAttempts,
    h .endpointRemoveAfter, h .unitRetryLimit, h .unitRetryInterval, h .unitRetryMessages,
    h .commandFile, h .commandPollMillis, h .monitorMillis, h .rateSamples, h .slowestUnits,
    h .drainTimeout, h .hooksWhenEmpty⟩

end BatchJob.Settings
