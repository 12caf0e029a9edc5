/-! JSON values as a reader needs them: nothing of the text is judged that nobody asks for. -/
namespace BatchJob

/-- `nat` is a numeral of digits alone and `number` any other one. A string, also one that names a
field, is `none` when its escapes leave half of a surrogate pair. -/
inductive Json where
  | null
  | bool (b : Bool)
  | nat (n : Nat)
  | number (numeral : String)
  | str (s : Option String)
  | arr (items : List Json)
  | obj (fields : List (Option String × Json))
  deriving Repr

namespace Json

def ofText (s : String) : Json := .str (some s)

def record (fields : List (String × Json)) : Json :=
  .obj (fields.map fun f => (some f.1, f.2))

def ofOption {α : Type} (f : α → Json) : Option α → Json
  | none => .null
  | some a => f a

end Json
end BatchJob
