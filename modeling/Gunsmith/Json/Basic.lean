/-
  JSON values.

  Requests, builds and cache entries are stored as JSON texts, and every such text is
  read back by the rules of a typed record: a whole number stays a whole number of any
  size, while a number with a fraction or an exponent (and minus zero) is never taken
  for one.  A value that is well formed but holds a string with half a surrogate pair
  has no text at all; it may stand where a reader skips it and nowhere else, so it is a
  value of its own (`Json.unreadable`).
-/

namespace Gunsmith

/-- A JSON value, as far as a typed record can tell values apart. -/
inductive Json where
  | null
  | bool (value : Bool)
  /-- A number written with digits only, of any size; minus zero is not one. -/
  | int (value : Int)
  /-- A number written with a fraction, an exponent, or as minus zero. -/
  | decimal
  | text (value : String)
  /-- A string, or an object with a key, in which half a surrogate pair stands alone. -/
  | unreadable
  | list (items : List Json)
  | object (members : List (String × Json))
deriving Inhabited

namespace Json

/-- The value of an optional text: `null` for none. -/
def ofOption (value : Option String) : Json :=
  match value with
  | none => .null
  | some s => .text s

/-- The list of the given texts. -/
def texts (values : List String) : Json :=
  .list (values.map .text)

end Json

end Gunsmith
