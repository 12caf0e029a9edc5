import BatchJob.Settings.Key
import BatchJob.Text.Properties

/-! Settings from keys with values: one at a time, from a JSON record, and from layers of which the
higher ones win. -/
namespace BatchJob.Settings
open Text

def apply (s : Settings) (name value : String) : Except String (Option Settings) :=
  match Key.ofName? (normalizeKey name) with
  | none => .ok none
  | some key =>
    match key.kind.read (trim value) with
    | some v => .ok (some (s.set key v))
    | none => .error (key.kind.complaint (normalizeKey name) (trim value))

/-- Names that are no keys are passed over. -/
def applyAll (s : Settings) : List (String × String) → Except String Settings
  | [] => .ok s
  | (name, value) :: rest =>
    match s.apply name value with
    | .error e => .error e
    | .ok none => applyAll s rest
    | .ok (some s) => applyAll s rest

def changes (s t : Settings) : List Key := Key.all.filter fun k => s.get k ≠ t.get k

def fieldJson (s : Settings) (k : Key) : String × Json := (k.field, k.kind.toJson (s.get k))

def toJson (s : Settings) : Json := .record (Key.all.map s.fieldJson)

def readField (s : Settings) (k : Key) : Option Json → Option Settings
  | none => some s
  | some v => (k.kind.ofJson? v).map (s.set k)

/-- Fields that are left out keep their defaults. -/
def ofJson? (v : Json) : Option Settings := do
  let values ← Json.fields? (Key.all.map Key.field) v
  (Key.all.zip values).foldlM (fun s f => s.readField f.1 f.2) default

/-- The keys are normal forms, each with one value. -/
structure Layers where
  commandFile : Table
  environment : Table
  explicit : Table
  deriving DecidableEq, Repr

namespace Layers

def empty : Layers := ⟨.empty, .empty, .empty⟩

def withExplicit (l : Layers) (name value : String) : Layers :=
  { l with explicit := l.explicit.put (normalizeKey name) value }

def isKnown (name : String) : Bool := (Key.ofName? name).isSome

/-- Of an environment only the keys of the settings are taken. -/
def withEnvironment (l : Layers) (vars : List (String × String)) : Layers :=
  let normal := vars.map fun v => (normalizeKey v.1, v.2)
  { l with environment := .ofList (normal.filter fun v => isKnown v.1) }

def withCommandText (l : Layers) (text : String) : Layers :=
  { l with commandFile := readProperties text }

/-- A file that is missing leaves the layers as they are. -/
def withCommandFile (l : Layers) (fs : Files) (path : String) : Except String Layers :=
  match fs.read path with
  | .ok text => .ok (l.withCommandText text)
  | .error .missing => .ok l
  | .error fault => .error ("cannot read command file " ++ path ++ ": " ++ fault.message)

def entries (l : Layers) : List (String × String) :=
  l.commandFile.entries ++ l.environment.entries ++ l.explicit.entries

end Layers

def resolve (l : Layers) (fs : Files) : Except String Settings :=
  match default.applyAll l.entries with
  | .error e => .error e
  | .ok s =>
    match s.problem? fs with
    | some problem => .error problem
    | none => .ok s

end BatchJob.Settings
