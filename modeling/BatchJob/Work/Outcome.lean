import BatchJob.Time.Duration

/-! How the execution of a unit ended. -/
namespace BatchJob.Work

/-- `endpoint`: the endpoint could not be reached; `unit`: it refused the unit; `poolExhausted`: no
endpoint was to be had after the given number of waits. -/
inductive FailureKind where
  | endpoint
  | unit
  | poolExhausted (waits : Nat)
  deriving DecidableEq, Repr

namespace FailureKind

def toJson : FailureKind → Json
  | endpoint => .ofText "endpoint"
  | unit => .ofText "unit"
  | poolExhausted waits =>
    .record [("pool_exhausted", .record [("attempts", .nat waits)])]

def exhausted? (content : Json) : Option FailureKind := do
  match ← Json.completeFields? ["attempts"] content with
  | [attempts] => return poolExhausted (← Json.required Json.word32? attempts)
  | _ => none

def ofJson? (v : Json) : Option FailureKind :=
  match Json.bareName? v with
  | some "endpoint" => some endpoint
  | some "unit" => some unit
  | _ =>
    match Json.alternative? v with
    | some ("pool_exhausted", some content) => exhausted? content
    | _ => none

end FailureKind

inductive Status where
  | succeeded
  | failed (kind : FailureKind)
  deriving DecidableEq, Repr

namespace Status

def kind? : Status → Option FailureKind
  | succeeded => none
  | failed kind => some kind

def isSuccess (s : Status) : Bool := s.kind?.isNone

def toJson : Status → Json
  | succeeded => .ofText "succeeded"
  | failed kind => .record [("failed", kind.toJson)]

def ofJson? (v : Json) : Option Status :=
  match Json.bareName? v with
  | some "succeeded" => some succeeded
  | _ =>
    match Json.alternative? v with
    | some ("failed", some content) => (FailureKind.ofJson? content).map failed
    | _ => none

end Status

structure Outcome where
  status : Status
  elapsed : Duration
  detail : Option String
  deriving DecidableEq, Repr

namespace Outcome

def success (elapsed : Duration) : Outcome := ⟨.succeeded, elapsed, none⟩

def failure (kind : FailureKind) (elapsed : Duration) (detail : String) : Outcome :=
  ⟨.failed kind, elapsed, some detail⟩

def isSuccess (o : Outcome) : Bool := o.status.isSuccess

def withElapsed (o : Outcome) (elapsed : Duration) : Outcome := { o with elapsed := elapsed }

@[simp] theorem status_withElapsed (o : Outcome) (d : Duration) :
    (o.withElapsed d).status = o.status := rfl

@[simp] theorem detail_withElapsed (o : Outcome) (d : Duration) :
    (o.withElapsed d).detail = o.detail := rfl

@[simp] theorem elapsed_withElapsed (o : Outcome) (d : Duration) :
    (o.withElapsed d).elapsed = d := rfl

end Outcome
end BatchJob.Work
