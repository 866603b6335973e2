import BuildTree.Text.Quoted

/-!
# Summaries — a value shown by its kind and its fields
-/

namespace BuildTree
namespace Summary

/-- The name of a kind, and its fields between braces. -/
def record (kind : String) (fields : List (String × String)) : String :=
  kind ++ " \x7b " ++
    String.intercalate ", " (fields.map fun (name, shown) => name ++ ": " ++ shown) ++ " \x7d"

/-- The name of a kind, and one text between parentheses. -/
def wrapped (kind text : String) : String :=
  kind ++ "(" ++ text ++ ")"

end Summary
end BuildTree
