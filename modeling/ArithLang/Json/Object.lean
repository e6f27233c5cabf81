/-
JSON objects in two layouts, from fields whose values are written out already: without any white
space, and with one field on each line, indented by four spaces for every object around it.
-/
import ArithLang.Json.Quoted

namespace ArithLang.Json

/-- A name with the text of its value. -/
structure Field where
  name : String
  value : String

def compactObject (fields : List Field) : String :=
  "\x7b" ++ ",".intercalate (fields.map fun f => quoted f.name ++ ":" ++ f.value) ++ "\x7d"

/-- The start of a line that stands inside `depth` objects. -/
def indent (depth : Nat) : String := String.ofList (List.replicate (4 * depth) ' ')

/-- An object that stands inside `depth` others. The lines of its fields are one step further in than
the brace that closes it. -/
def indentedObject (depth : Nat) (fields : List Field) : String :=
  "\x7b\n" ++ ",\n".intercalate (fields.map fun f => indent (depth + 1) ++ quoted f.name ++ ": " ++ f.value)
    ++ "\n" ++ indent depth ++ "\x7d"

end ArithLang.Json
