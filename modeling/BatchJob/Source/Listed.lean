/-! Identifiers held in memory. -/
namespace BatchJob

/-- A list of identifiers, read from the front. -/
structure ListSource where
  identifiers : List String
  batchRef : Option String
  position : Nat
  deriving DecidableEq, Repr

namespace ListSource

def ofList (identifiers : List String) (batchRef : Option String) : ListSource :=
  ⟨identifiers, batchRef, 0⟩

def start (s : ListSource) : ListSource := { s with position := 0 }

def total (s : ListSource) : Nat := s.identifiers.length

def next (s : ListSource) : Option String × ListSource :=
  match s.identifiers[s.position]? with
  | some id => (some id, { s with position := s.position + 1 })
  | none => (none, s)

def rest (s : ListSource) : List String := s.identifiers.drop s.position

end ListSource
end BatchJob
