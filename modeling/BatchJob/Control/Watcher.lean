import BatchJob.Control.Directives
import BatchJob.Control.Panel

/-! Watching a file for directives. A text is acted on once, when it first appears. -/
namespace BatchJob.Control

def Command.request : Command → Request
  | pause => .pause
  | resume => .resume
  | stop => .stop

/-- What the directives ask of a job with so many threads. -/
def Directives.requests (d : Directives) (threadCount : Nat) : List Request :=
  (d.threadCount.filter (· ≠ threadCount)).toList.map .setThreads ++
    d.command.toList.map Command.request

/-- `last` is the text that was read last. -/
structure Watcher where
  last : Option String
  deriving DecidableEq, Repr

namespace Watcher

def start : Watcher := ⟨none⟩

def see (w : Watcher) : Option String → Option Directives × Watcher
  | none => (none, w)
  | some text => if w.last = some text then (none, w) else (some (.read text), ⟨some text⟩)

def poll (w : Watcher) (text : Option String) (p : Panel) : Option Directives × Watcher × Panel :=
  match w.see text with
  | (none, w) => (none, w, p)
  | (some d, w) => (some d, w, (d.requests p.state.threadCount).foldl .handle p)

end Watcher
end BatchJob.Control
