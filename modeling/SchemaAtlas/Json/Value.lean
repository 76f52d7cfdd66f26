/-
JSON documents. An object keeps its members in the order in which they
are listed, because that order shows in the text. Numbers are either
natural numbers or binary32 values; the two are written differently.
-/
namespace SchemaAtlas

namespace Json

/-- A JSON document. -/
inductive Value
  | null
  | boolean (b : Bool)
  | natural (n : Nat)
  | real (x : Float32)
  | string (s : String)
  | array (items : List Value)
  | object (members : List (String × Value))
  deriving Inhabited

namespace Value

/-- A list of strings. -/
def strings (ss : List String) : Value :=
  array (ss.map string)

end Value

end Json

end SchemaAtlas
