import BatchCodec.Text.Width
/-!
Texts between double quotes, as they are shown to an operator.

Inside the quotes a double quote, a backslash and the common control characters have a short escape;
every other character that would not be seen as itself is written as its code point in hexadecimal.
-/

namespace BatchCodec.Text

/-- Controls, separators other than the blank, format characters and private use. -/
def unseenRanges : List (Nat × Nat) :=
  [(0x0000, 0x001F), (0x007F, 0x00A0), (0x00AD, 0x00AD), (0x061C, 0x061C), (0x1680, 0x1680),
   (0x180E, 0x180E), (0x2000, 0x200F), (0x2028, 0x202F), (0x205F, 0x206F), (0x3000, 0x3000),
   (0x302E, 0x302F), (0xE000, 0xF8FF), (0xFEFF, 0xFEFF), (0xFF9E, 0xFF9F), (0xFFF0, 0xFFFB),
   (0xE0000, 0x10FFFF)]

/-- Whether a character would not be seen as itself. A mark would combine with what is before it. -/
def isUnseen (c : Char) : Bool :=
  inRanges unseenRanges c || inRanges markRanges c

def quoteChar (c : Char) : List Char :=
  if c == '\x22' then ['\\', '\x22']
  else if c == '\\' then ['\\', '\\']
  else if c == '\n' then ['\\', 'n']
  else if c == '\r' then ['\\', 'r']
  else if c == '\t' then ['\\', 't']
  else if c == '\x00' then ['\\', '0']
  else if isUnseen c then ['\\', 'u', '\x7b'] ++ Nat.toDigits 16 c.toNat ++ ['\x7d']
  else [c]

def quote (s : String) : String :=
  String.ofList ('\x22' :: s.toList.flatMap quoteChar ++ ['\x22'])

/-- Texts between double quotes, listed between square brackets. -/
def quoteList (items : List String) : String :=
  "[" ++ ", ".intercalate (items.map quote) ++ "]"

end BatchCodec.Text
