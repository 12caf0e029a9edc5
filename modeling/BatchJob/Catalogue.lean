import BatchJob.Text.Basic

/-! Named ways to make a component, looked up without regard to case and to blanks around the
name. -/
namespace BatchJob
open Text

/-- A factory makes a component or says why it cannot: the innermost reason last. `kind` names what
is made. -/
structure Catalogue (α β : Type) where
  kind : String
  factories : List (String × (α → Except (List String) β))

namespace Catalogue
variable {α β : Type}

def empty (kind : String) : Catalogue α β := ⟨kind, []⟩

def key (name : String) : String := lower (trim name)

def names (c : Catalogue α β) : List String := c.factories.map Prod.fst

def contains (c : Catalogue α β) (name : String) : Bool := c.names.contains (key name)

def insert (name : String) (factory : α → Except (List String) β) :
    List (String × (α → Except (List String) β)) → List (String × (α → Except (List String) β))
  | [] => [(name, factory)]
  | f :: rest => if name < f.1 then (name, factory) :: f :: rest else f :: insert name factory rest

def add (c : Catalogue α β) (name : String) (factory : α → Except (List String) β) :
    Except String (Catalogue α β) :=
  if key name = "" then .error (c.kind ++ " name must not be blank")
  else if c.contains name then .error (c.kind ++ " `" ++ key name ++ "` is already registered")
  else .ok { c with factories := insert (key name) factory c.factories }

def make (c : Catalogue α β) (name : String) (settings : α) : Except String β :=
  match c.factories.lookup (key name) with
  | none =>
    .error ("unknown " ++ c.kind ++ " `" ++ key name ++ "` (registered: " ++
      ", ".intercalate c.names ++ ")")
  | some factory =>
    match factory settings with
    | .ok component => .ok component
    | .error reasons =>
      .error ("cannot create " ++ c.kind ++ " `" ++ key name ++ "`: " ++ ": ".intercalate reasons)

end Catalogue
end BatchJob
