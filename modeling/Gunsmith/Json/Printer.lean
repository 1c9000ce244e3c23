/-
  Writing JSON texts.

  The text is compact: no blanks between tokens, members in the order they have.  A
  string escapes the quote, the backslash and the control characters, these with a
  letter where there is one and with four lower-case hexadecimal digits otherwise; all
  other characters stand as they are.
-/
import Gunsmith.Json.Basic

namespace Gunsmith.Json

/-- The lower-case hexadecimal digit of a number below 16. -/
def hexDigit (n : Nat) : Char :=
  if n < 10 then Char.ofNat ('0'.toNat + n) else Char.ofNat ('a'.toNat + (n - 10))

/-- The written form of one character of a string. -/
def escape (c : Char) : List Char :=
  if c = '"' then ['\\', '"']
  else if c = '\\' then ['\\', '\\']
  else if c = '\x08' then ['\\', 'b']
  else if c = '\x0c' then ['\\', 'f']
  else if c = '\n' then ['\\', 'n']
  else if c = '\r' then ['\\', 'r']
  else if c = '\t' then ['\\', 't']
  else if c.toNat < 0x20 then
    ['\\', 'u', '0', '0', hexDigit (c.toNat / 16), hexDigit (c.toNat % 16)]
  else [c]

/-- The written form of a string, with its quotes. -/
def quoted (s : String) : List Char :=
  '"' :: s.toList.flatMap escape ++ ['"']

mutual

/-- The written form of a value. -/
def chars : Json → List Char
  | .null => ['n', 'u', 'l', 'l']
  | .bool true => ['t', 'r', 'u', 'e']
  | .bool false => ['f', 'a', 'l', 's', 'e']
  | .int n => (toString n).toList
  | .decimal => ['-', '0']
  | .text s => quoted s
  | .unreadable => ['"', '\\', 'u', 'd', '8', '0', '0', '"']
  | .list items => '[' :: itemChars items ++ [']']
  | .object members => '{' :: memberChars members ++ ['}']

/-- The written forms of the items of a list, with commas between them. -/
def itemChars : List Json → List Char
  | [] => []
  | [v] => chars v
  | v :: w :: rest => chars v ++ ',' :: itemChars (w :: rest)

/-- The written forms of the members of an object, with commas between them. -/
def memberChars : List (String × Json) → List Char
  | [] => []
  | [(k, v)] => quoted k ++ ':' :: chars v
  | (k, v) :: m :: rest => quoted k ++ ':' :: chars v ++ ',' :: memberChars (m :: rest)

end

/-- The written form of a value, as a text. -/
def print (v : Json) : String :=
  String.ofList (chars v)

end Gunsmith.Json
