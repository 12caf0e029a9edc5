import BatchJob.Catalogue
import BatchJob.Control.Directives
import BatchJob.Control.Panel
import BatchJob.Control.Phase
import BatchJob.Control.State
import BatchJob.Control.Watcher
import BatchJob.Endpoint.Basic
import BatchJob.Endpoint.Desk
import BatchJob.Endpoint.Pool
import BatchJob.Endpoint.Request
import BatchJob.Files
import BatchJob.Job.Draft
import BatchJob.Job.Error
import BatchJob.Job.Pump
import BatchJob.Job.Run
import BatchJob.Job.Stage
import BatchJob.Job.Surroundings
import BatchJob.Json.Basic
import BatchJob.Json.Lexer
import BatchJob.Json.Printer
import BatchJob.Json.Quoted
import BatchJob.Json.Reader
import BatchJob.Json.Shape
import BatchJob.Number.Binary64
import BatchJob.Pace
import BatchJob.Proofs.Control.Office
import BatchJob.Proofs.Control.Phases
import BatchJob.Proofs.Control.Standing
import BatchJob.Proofs.Control.Stopping
import BatchJob.Proofs.Control.Vigil
import BatchJob.Proofs.Endpoint.Accesses
import BatchJob.Proofs.Endpoint.Entries
import BatchJob.Proofs.Endpoint.Handles
import BatchJob.Proofs.Endpoint.Health
import BatchJob.Proofs.Endpoint.Leases
import BatchJob.Proofs.Endpoint.Naps
import BatchJob.Proofs.Endpoint.Outages
import BatchJob.Proofs.Endpoint.Selection
import BatchJob.Proofs.Endpoint.Turns
import BatchJob.Proofs.Endpoint.Waiting
import BatchJob.Proofs.Job.Accounts
import BatchJob.Proofs.Job.Advancing
import BatchJob.Proofs.Job.Balance
import BatchJob.Proofs.Job.Batched
import BatchJob.Proofs.Job.Batches
import BatchJob.Proofs.Job.Batching
import BatchJob.Proofs.Job.Counting
import BatchJob.Proofs.Job.Course
import BatchJob.Proofs.Job.Endless
import BatchJob.Proofs.Job.Events
import BatchJob.Proofs.Job.Faults
import BatchJob.Proofs.Job.Feeding
import BatchJob.Proofs.Job.Heeding
import BatchJob.Proofs.Job.Others
import BatchJob.Proofs.Job.Progress
import BatchJob.Proofs.Job.Protocol
import BatchJob.Proofs.Job.Recorded
import BatchJob.Proofs.Job.Rounds
import BatchJob.Proofs.Job.Story
import BatchJob.Proofs.Job.Turns
import BatchJob.Proofs.Job.Working
import BatchJob.Proofs.Json.Quoted
import BatchJob.Proofs.Pace
import BatchJob.Proofs.Queue.Bounded
import BatchJob.Proofs.Queue.Framing
import BatchJob.Proofs.Queue.Ring
import BatchJob.Proofs.Queue.Spill
import BatchJob.Proofs.Queue.Staging
import BatchJob.Proofs.Queue.Store
import BatchJob.Proofs.Queue.Walk
import BatchJob.Proofs.Settings.Assignments
import BatchJob.Proofs.Settings.InPlace
import BatchJob.Proofs.Settings.Precedence
import BatchJob.Proofs.Source.Announced
import BatchJob.Proofs.Source.Lines
import BatchJob.Proofs.Text.Bytes
import BatchJob.Proofs.Text.Keys
import BatchJob.Proofs.Text.Wording
import BatchJob.Proofs.Work.Attempts
import BatchJob.Proofs.Work.Costs
import BatchJob.Proofs.Worker.Act
import BatchJob.Proofs.Worker.Caller
import BatchJob.Proofs.Worker.Crew
import BatchJob.Proofs.Worker.Discard
import BatchJob.Proofs.Worker.Drain
import BatchJob.Proofs.Worker.Floor
import BatchJob.Proofs.Worker.Frame
import BatchJob.Proofs.Worker.Idle
import BatchJob.Proofs.Worker.Journal
import BatchJob.Proofs.Worker.Ledger
import BatchJob.Proofs.Worker.Overlap
import BatchJob.Proofs.Worker.Queueing
import BatchJob.Proofs.Worker.Requests
import BatchJob.Proofs.Worker.Shift
import BatchJob.Proofs.Worker.Single
import BatchJob.Proofs.Worker.Slowest
import BatchJob.Proofs.Worker.Staff
import BatchJob.Proofs.Worker.Still
import BatchJob.Proofs.Worker.Stride
import BatchJob.Queue.Ring
import BatchJob.Queue.Spill
import BatchJob.Queue.Staging
import BatchJob.Queue.Store
import BatchJob.Rehearsal.Crew
import BatchJob.Rehearsal.Meanwhile
import BatchJob.Rehearsal.Parts
import BatchJob.Rehearsal.Run
import BatchJob.Rehearsal.Scene
import BatchJob.Rehearsal.Script
import BatchJob.Rehearsal.Site
import BatchJob.Settings.Basic
import BatchJob.Settings.Key
import BatchJob.Settings.Layers
import BatchJob.Source.Lines
import BatchJob.Source.Listed
import BatchJob.Text.Basic
import BatchJob.Text.Numeral
import BatchJob.Text.Properties
import BatchJob.Text.Table
import BatchJob.Time.Clock
import BatchJob.Time.Duration
import BatchJob.Work.Attempts
import BatchJob.Work.Outcome
import BatchJob.Work.Unit
import BatchJob.Worker.Backlog
import BatchJob.Worker.Counters
import BatchJob.Worker.Pool
import BatchJob.Worker.Ranking
import BatchJob.Worker.Resize
import BatchJob.Worker.Round
import BatchJob.Worker.Schedule
import BatchJob.Worker.Task
