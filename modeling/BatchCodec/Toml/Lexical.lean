/-!
The characters of TOML documents: blanks, comments, line ends, strings and bare words.

Every reader takes the characters still to be read and gives what it read with the rest, or nothing
if the text is not well formed.
-/

namespace BatchCodec.Toml

/-- Whether a character may stand in a comment or a string: no control character but the tab. -/
def isPlain (c : Char) : Bool :=
  c == '\t' || (0x20 ≤ c.toNat && c != '\x7f')

def skipBlanks (cs : List Char) : List Char :=
  cs.dropWhile fun c => c == ' ' || c == '\t'

mutual

def skipTrivia : List Char → Option (List Char)
  | ' ' :: rest => skipTrivia rest
  | '\t' :: rest => skipTrivia rest
  | '\n' :: rest => skipTrivia rest
  | '\r' :: '\n' :: rest => skipTrivia rest
  | '#' :: rest => skipComment rest
  | cs => some cs

/-- What follows a comment and further blanks, line ends and comments. -/
def skipComment : List Char → Option (List Char)
  | [] => some []
  | '\n' :: rest => skipTrivia rest
  | '\r' :: '\n' :: rest => skipTrivia rest
  | c :: rest => if isPlain c then skipComment rest else none

end

/-- What follows the end of a comment, which is a line end or the end of the document. -/
def endComment : List Char → Option (List Char)
  | [] => some []
  | '\n' :: rest => some rest
  | '\r' :: '\n' :: rest => some rest
  | c :: rest => if isPlain c then endComment rest else none

/-- What follows the rest of a line on which nothing but a comment may still stand. -/
def endLine (cs : List Char) : Option (List Char) :=
  match skipBlanks cs with
  | [] => some []
  | '\n' :: rest => some rest
  | '\r' :: '\n' :: rest => some rest
  | '#' :: rest => endComment rest
  | _ => none

def hexValue? (c : Char) : Option Nat :=
  if '0' ≤ c ∧ c ≤ '9' then some (c.toNat - 48)
  else if 'a' ≤ c ∧ c ≤ 'f' then some (c.toNat - 87)
  else if 'A' ≤ c ∧ c ≤ 'F' then some (c.toNat - 55)
  else none

def hexNumber? (digits : List Char) : Option Nat :=
  digits.foldl (fun n c => match n, hexValue? c with
    | some n, some v => some (n * 16 + v)
    | _, _ => none) (some 0)

/-- The character with the code point that hexadecimal digits write. -/
def hexChar? (digits : List Char) : Option Char :=
  match hexNumber? digits with
  | some n => if n.isValidChar then some (Char.ofNat n) else none
  | none => none

/-- The character that a single character behind a backslash stands for. -/
def escape? : Char → Option Char
  | 'b' => some '\x08'
  | 't' => some '\t'
  | 'n' => some '\n'
  | 'f' => some '\x0c'
  | 'r' => some '\r'
  | 'e' => some '\x1b'
  | '\x22' => some '\x22'
  | '\\' => some '\\'
  | _ => none

/-- A string read, with the characters behind it. -/
abbrev Read := List Char × List Char

/-- Puts a character in front of what is read later. -/
def Read.after (c : Option Char) (r : Option Read) : Option Read :=
  match c, r with
  | some c, some (cs, rest) => some (c :: cs, rest)
  | _, _ => none

/-- A string up to its closing double quote. -/
def basicString : List Char → Option Read
  | [] => none
  | '\x22' :: rest => some ([], rest)
  | '\\' :: 'x' :: a :: b :: rest => Read.after (hexChar? [a, b]) (basicString rest)
  | '\\' :: 'u' :: a :: b :: c :: d :: rest =>
    Read.after (hexChar? [a, b, c, d]) (basicString rest)
  | '\\' :: 'U' :: a :: b :: c :: d :: e :: f :: g :: h :: rest =>
    Read.after (hexChar? [a, b, c, d, e, f, g, h]) (basicString rest)
  | '\\' :: c :: rest => Read.after (escape? c) (basicString rest)
  | c :: rest => if isPlain c then Read.after (some c) (basicString rest) else none

/-- A string up to its closing single quote. -/
def literalString : List Char → Option Read
  | [] => none
  | '\x27' :: rest => some ([], rest)
  | c :: rest => if isPlain c then Read.after (some c) (literalString rest) else none

mutual

/-- A string of several lines up to its three closing double quotes; up to two more quotes in front
of them belong to the string. -/
def basicText : List Char → Option Read
  | [] => none
  | '\x22' :: '\x22' :: '\x22' :: '\x22' :: '\x22' :: rest => some (['\x22', '\x22'], rest)
  | '\x22' :: '\x22' :: '\x22' :: '\x22' :: rest => some (['\x22'], rest)
  | '\x22' :: '\x22' :: '\x22' :: rest => some ([], rest)
  | '\\' :: 'x' :: a :: b :: rest => Read.after (hexChar? [a, b]) (basicText rest)
  | '\\' :: 'u' :: a :: b :: c :: d :: rest =>
    Read.after (hexChar? [a, b, c, d]) (basicText rest)
  | '\\' :: 'U' :: a :: b :: c :: d :: e :: f :: g :: h :: rest =>
    Read.after (hexChar? [a, b, c, d, e, f, g, h]) (basicText rest)
  | '\\' :: ' ' :: rest => continued false rest
  | '\\' :: '\t' :: rest => continued false rest
  | '\\' :: '\n' :: rest => continued true rest
  | '\\' :: '\r' :: '\n' :: rest => continued true rest
  | '\\' :: c :: rest => Read.after (escape? c) (basicText rest)
  | '\n' :: rest => Read.after (some '\n') (basicText rest)
  | '\r' :: '\n' :: rest => Read.after (some '\n') (basicText rest)
  | c :: rest => if isPlain c then Read.after (some c) (basicText rest) else none

/-- A string of several lines behind a backslash at the end of a line: blanks and line ends are left
out; `ended` says whether a line end has been seen. -/
def continued (ended : Bool) : List Char → Option Read
  | [] => none
  | ' ' :: rest => continued ended rest
  | '\t' :: rest => continued ended rest
  | '\n' :: rest => continued true rest
  | '\r' :: '\n' :: rest => continued true rest
  | '\x22' :: '\x22' :: '\x22' :: '\x22' :: '\x22' :: rest =>
    if ended then some (['\x22', '\x22'], rest) else none
  | '\x22' :: '\x22' :: '\x22' :: '\x22' :: rest => if ended then some (['\x22'], rest) else none
  | '\x22' :: '\x22' :: '\x22' :: rest => if ended then some ([], rest) else none
  | '\\' :: 'x' :: a :: b :: rest =>
    if ended then Read.after (hexChar? [a, b]) (basicText rest) else none
  | '\\' :: 'u' :: a :: b :: c :: d :: rest =>
    if ended then Read.after (hexChar? [a, b, c, d]) (basicText rest) else none
  | '\\' :: 'U' :: a :: b :: c :: d :: e :: f :: g :: h :: rest =>
    if ended then Read.after (hexChar? [a, b, c, d, e, f, g, h]) (basicText rest) else none
  | '\\' :: ' ' :: rest => if ended then continued false rest else none
  | '\\' :: '\t' :: rest => if ended then continued false rest else none
  | '\\' :: '\n' :: rest => if ended then continued true rest else none
  | '\\' :: '\r' :: '\n' :: rest => if ended then continued true rest else none
  | '\\' :: c :: rest => if ended then Read.after (escape? c) (basicText rest) else none
  | c :: rest => if ended && isPlain c then Read.after (some c) (basicText rest) else none

end

/-- A literal string of several lines up to its three closing single quotes. -/
def literalText : List Char → Option Read
  | [] => none
  | '\x27' :: '\x27' :: '\x27' :: '\x27' :: '\x27' :: rest => some (['\x27', '\x27'], rest)
  | '\x27' :: '\x27' :: '\x27' :: '\x27' :: rest => some (['\x27'], rest)
  | '\x27' :: '\x27' :: '\x27' :: rest => some ([], rest)
  | '\n' :: rest => Read.after (some '\n') (literalText rest)
  | '\r' :: '\n' :: rest => Read.after (some '\n') (literalText rest)
  | c :: rest => if isPlain c then Read.after (some c) (literalText rest) else none

/-- What follows a line end directly behind the opening quotes of a string of several lines. -/
def skipFirstLineEnd : List Char → List Char
  | '\n' :: rest => rest
  | '\r' :: '\n' :: rest => rest
  | cs => cs

/-- Whether a character may stand in a key without quotes. -/
def isBare (c : Char) : Bool :=
  c.isAlphanum || c == '_' || c == '-'

/-- Whether a character may stand in a number, a truth value, a date or a time. -/
def isWordChar (c : Char) : Bool :=
  isBare c || c == '+' || c == '.' || c == ':'

end BatchCodec.Toml
