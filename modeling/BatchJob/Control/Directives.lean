import BatchJob.Text.Numeral
import BatchJob.Text.Basic
import BatchJob.Text.Properties

/-! Directives for a running job, and the file that carries them. -/
namespace BatchJob.Control
open Text

inductive Command where
  | pause | resume | stop
  deriving DecidableEq, Repr

namespace Command

def name : Command → String
  | pause => "PAUSE"
  | resume => "RESUME"
  | stop => "STOP"

/-- Names are read without regard to case and to blanks around them. -/
def read (s : String) : Except String Command :=
  match upper (trim s) with
  | "PAUSE" => .ok pause
  | "RESUME" => .ok resume
  | "STOP" => .ok stop
  | other => .error ("unknown command `" ++ other ++ "`")

end Command

/-- What one reading of the file asks for, with a complaint for each value that has no meaning. -/
structure Directives where
  command : Option Command
  threadCount : Option Nat
  invalid : List String
  deriving DecidableEq, Repr

namespace Directives

def readThreadCount (value : String) : Except String Nat :=
  match readSigned (limit64 / 2) value with
  | some n => .ok (max 1 n.toNat)
  | none => .error ("invalid THREAD-COUNT `" ++ value ++ "`")

/-- A key with an empty value is as good as absent. -/
def value? (properties : Table) (key : String) : Option String :=
  (properties.get? key).filter (· ≠ "")

def result? {α : Type} : Option (Except String α) → Option α
  | some (.ok a) => some a
  | _ => none

def complaint {α : Type} : Option (Except String α) → List String
  | some (.error e) => [e]
  | _ => []

def ofProperties (properties : Table) : Directives :=
  let command := (value? properties "COMMAND").map Command.read
  let threads := (value? properties "THREAD-COUNT").map readThreadCount
  ⟨result? command, result? threads, complaint command ++ complaint threads⟩

def read (text : String) : Directives := ofProperties (readProperties text)

def isEmpty (d : Directives) : Bool := d.command.isNone && d.threadCount.isNone

end Directives
end BatchJob.Control
