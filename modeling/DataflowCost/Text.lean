/-! Written forms of lists: the tight form of shapes and attributes, and the spaced form of
diagnostics. -/
namespace DataflowCost.Text

/-- Items in brackets, a comma between neighbours. -/
def tight (items : List String) : String := "[" ++ ",".intercalate items ++ "]"

/-- Items in brackets, a comma and a blank between neighbours. -/
def spaced (items : List String) : String := "[" ++ ", ".intercalate items ++ "]"

/-- A named attribute list, closed by a comma. -/
def named (name : String) (items : List String) : String :=
  name ++ "=" ++ tight items ++ ","

end DataflowCost.Text
