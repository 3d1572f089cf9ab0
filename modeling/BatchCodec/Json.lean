/-!
JSON documents and their text.

Lists and objects that are not empty are written one element to a line, indented by two blanks for
each level; a colon is followed by a blank. In strings a quote, a backslash and the control characters
are escaped and everything else stands for itself.
-/

namespace BatchCodec

/-- A JSON document. The members of an object stand in the order in which they are written. -/
inductive Json where
  | null
  | bool (b : Bool)
  /-- A number, by its text. -/
  | number (digits : String)
  | string (s : String)
  | list (items : List Json)
  | object (members : List (String × Json))

namespace Json

def ofNat (n : Nat) : Json := .number (toString n)

def hexDigit (n : Nat) : Char :=
  if n < 10 then Char.ofNat (48 + n) else Char.ofNat (87 + n)

/-- One character inside a string. -/
def escapeChar (c : Char) : List Char :=
  if c == '\x22' then ['\\', '\x22']
  else if c == '\\' then ['\\', '\\']
  else if c == '\x08' then ['\\', 'b']
  else if c == '\x0c' then ['\\', 'f']
  else if c == '\n' then ['\\', 'n']
  else if c == '\r' then ['\\', 'r']
  else if c == '\t' then ['\\', 't']
  else if c.toNat < 0x20 then
    ['\\', 'u', '0', '0', hexDigit (c.toNat / 16), hexDigit (c.toNat % 16)]
  else [c]

def stringChars (s : String) : List Char :=
  '\x22' :: (s.toList.flatMap escapeChar ++ ['\x22'])

def newline (depth : Nat) : List Char :=
  '\n' :: List.replicate (2 * depth) ' '

mutual

/-- The text of a document whose lines after the first are indented for a level. -/
def chars (depth : Nat) : Json → List Char
  | .null => ['n', 'u', 'l', 'l']
  | .bool true => ['t', 'r', 'u', 'e']
  | .bool false => ['f', 'a', 'l', 's', 'e']
  | .number digits => digits.toList
  | .string s => stringChars s
  | .list [] => ['[', ']']
  | .list (item :: items) =>
    '[' :: (newline (depth + 1) ++ chars (depth + 1) item ++ itemsChars (depth + 1) items ++
      newline depth ++ [']'])
  | .object [] => ['\x7b', '\x7d']
  | .object ((key, value) :: members) =>
    '\x7b' :: (newline (depth + 1) ++ stringChars key ++ [':', ' '] ++ chars (depth + 1) value ++
      membersChars (depth + 1) members ++ newline depth ++ ['\x7d'])

def itemsChars (depth : Nat) : List Json → List Char
  | [] => []
  | item :: items => ',' :: (newline depth ++ chars depth item ++ itemsChars depth items)

def membersChars (depth : Nat) : List (String × Json) → List Char
  | [] => []
  | (key, value) :: members =>
    ',' :: (newline depth ++ stringChars key ++ [':', ' '] ++ chars depth value ++
      membersChars depth members)

end

def pretty (j : Json) : String := String.ofList (chars 0 j)

end Json

end BatchCodec
