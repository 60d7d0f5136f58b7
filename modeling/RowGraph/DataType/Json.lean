import RowGraph.DataType
import RowGraph.Json.Basic

/-!
# DataType — to and from JSON

In a document a type is its spelling as a string.  `DataType.ofJson?` also takes the tagged form,
an object whose one member has the spelling as its name and null as its value.
-/

namespace RowGraph.DataType

def toJson (t : DataType) : Json := .string t.name

/-- The type a document stands for; neither case nor aliases are free here. -/
def ofJson? : Json → Option DataType
  | .string s => ofName? s
  | .object [(s, .null)] => ofName? s
  | _ => none

theorem ofJson?_toJson (t : DataType) : ofJson? t.toJson = some t := ofName?_name t

end RowGraph.DataType
