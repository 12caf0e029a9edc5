import BatchJob.Json.Basic
import BatchJob.Json.Quoted
import BatchJob.Text.Numeral

/-! The compact text of a JSON value. -/
namespace BatchJob.Json

mutual

/-- No blanks between the parts. A string that is no text is printed as `null`. -/
def print : Json → String
  | .null => "null"
  | .bool true => "true"
  | .bool false => "false"
  | .nat n => Text.decimal n
  | .number numeral => numeral
  | .str none => "null"
  | .str (some s) => quote s
  | .arr items => "[" ++ ",".intercalate (printItems items) ++ "]"
  | .obj fields => "\x7b" ++ ",".intercalate (printFields fields) ++ "\x7d"

def printItems : List Json → List String
  | [] => []
  | v :: vs => print v :: printItems vs

def printFields : List (Option String × Json) → List String
  | [] => []
  | (name, v) :: fs => (quote (name.getD "") ++ ":" ++ print v) :: printFields fs

end

end BatchJob.Json
