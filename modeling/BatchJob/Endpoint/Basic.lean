import BatchJob.Json.Shape
import BatchJob.Text.Properties
import BatchJob.Time.Duration

/-! Endpoints that units are executed on, and the settings of a pool of them. -/
namespace BatchJob

/-- `index` is the place of the endpoint in the order of registration. -/
structure Endpoint where
  index : Nat
  address : String
  user : Option String
  deriving DecidableEq, Repr

namespace Endpoint

def label (e : Endpoint) : String :=
  match e.user with
  | some user => user ++ "@" ++ e.address
  | none => e.address

def toJson (e : Endpoint) : Json :=
  .record [("index", .nat e.index), ("address", .ofText e.address),
    ("user", .ofOption .ofText e.user)]

def ofJson? (v : Json) : Option Endpoint := do
  match ← Json.completeFields? ["index", "address", "user"] v with
  | [index, address, user] =>
    return ⟨← Json.required Json.word64? index, ← Json.required Json.text? address,
      ← Json.orElse (Json.nullable Json.text?) none user⟩
  | _ => none

/-- How an endpoint is chosen among the free ones: in turn, at random, or the one with the fewest
leases. -/
inductive Policy where
  | roundRobin | random | load
  deriving DecidableEq, Repr

namespace Policy

def name : Policy → String
  | roundRobin => "ROUND-ROBIN"
  | random => "RANDOM"
  | load => "LOAD"

def all : List Policy := [roundRobin, random, load]

def ofName? (name : String) : Option Policy := all.find? (·.name = name)

@[simp] theorem ofName?_name (p : Policy) : ofName? p.name = some p := by cases p <;> rfl

/-- Names are read as keys are: without regard to case, blanks around them, or which dash. -/
def read (s : String) : Except String Policy :=
  match ofName? (Text.normalizeKey s) with
  | some p => .ok p
  | none => .error ("unknown endpoint policy `" ++ Text.normalizeKey s ++
      "` (expected ROUND-ROBIN, RANDOM or LOAD)")

def toJson (p : Policy) : Json := .ofText p.name

def ofJson? (v : Json) : Option Policy := (Json.bareName? v).bind ofName?

end Policy

/-- `retryLimit` errors in a row put an endpoint in quarantine for `retryInterval`, counted from the
last one; `removeAfter` of them take it out of the pool. -/
structure Settings where
  policy : Policy
  retryLimit : Nat
  retryInterval : Duration
  waitAttempts : Nat
  removeAfter : Option Nat
  deriving DecidableEq, Repr

namespace Settings

def default : Settings := ⟨.roundRobin, 3, .ofSeconds 60, 3, none⟩

def problem? (s : Settings) : Option String :=
  if s.removeAfter = some 0 then some "remove_after_errors must be greater than 0" else none

end Settings
end Endpoint
end BatchJob
