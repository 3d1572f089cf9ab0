import BatchCodec.Text.Lines
/-!
Wildcard patterns for names.

`?` stands for any character and `*` for any characters; between square brackets stand the characters
allowed in one place, or with `!` in front those not allowed; two stars alone between separators
stand for any number of folders. Reading a pattern fails in three ways. A name matches when it is
used up by the tokens one after the other.

Functions of the program: `is_pattern` (`isPattern`). The rest of this module, and the walk along a
pattern, stand for the library that `expand_input` hands a pattern to.
-/

namespace BatchCodec.Pattern

/-- Why a text is no pattern. -/
inductive Malformed where
  /-- More than two stars in a row. -/
  | stars
  /-- Two stars that do not stand alone between separators. -/
  | recursion
  /-- A bracket that is not closed. -/
  | bracket
  deriving DecidableEq, Repr

def Malformed.message : Malformed → String
  | stars => "wildcards are either regular `*` or recursive `**`"
  | recursion => "recursive wildcards must form a single path component"
  | bracket => "invalid range pattern"

inductive ClassItem where
  | single (c : Char)
  | range (first last : Char)
  deriving DecidableEq, Repr

def ClassItem.holds (x : Char) : ClassItem → Bool
  | single c => x == c
  | range first last => first.toNat ≤ x.toNat && x.toNat ≤ last.toNat

/-- The items between square brackets: `x-y` is a range, any other character stands for itself. -/
def classItems : List Char → List ClassItem
  | [] => []
  | a :: '-' :: b :: rest => .range a b :: classItems rest
  | a :: rest => .single a :: classItems rest

/-- One element of a pattern. -/
inductive Token where
  /-- The character itself. -/
  | char (c : Char)
  /-- Any one character. -/
  | any
  /-- Any characters. -/
  | many
  /-- Any folders. -/
  | folders
  /-- One character that an item holds. -/
  | oneOf (items : List ClassItem)
  /-- One character that no item holds. -/
  | noneOf (items : List ClassItem)
  deriving DecidableEq, Repr

mutual

/-- Reads tokens; `before` is the character in front, if there is one. -/
def tokens (before : Option Char) : List Char → Except Malformed (List Token)
  | [] => .ok []
  | '?' :: rest => (tokens (some '?') rest).map (Token.any :: ·)
  | '*' :: '*' :: '*' :: _ => .error .stars
  | '*' :: '*' :: rest =>
    if before = none ∨ before = some '/' then
      match rest with
      | [] => .ok [.folders]
      | '/' :: rest => (tokens (some '/') rest).map (Token.folders :: ·)
      | _ :: _ => .error .recursion
    else .error .recursion
  | '*' :: rest => (tokens (some '*') rest).map (Token.many :: ·)
  | '[' :: '!' :: rest => classTokens true [] rest
  | '[' :: rest => classTokens false [] rest
  | c :: rest => (tokens (some c) rest).map (Token.char c :: ·)

/-- Reads the characters between square brackets, `body` being those read so far in reverse. The
first of them may be a closing bracket. -/
def classTokens (negated : Bool) (body : List Char) : List Char → Except Malformed (List Token)
  | [] => .error .bracket
  | c :: rest =>
    if c = ']' ∧ body ≠ [] then
      let items := classItems body.reverse
      (tokens (some ']') rest).map ((if negated then Token.noneOf items else .oneOf items) :: ·)
    else classTokens negated (c :: body) rest

end

/-- Whether a token allows a character in one place. -/
def Token.allows (x : Char) : Token → Bool
  | char c => x == c
  | any => true
  | many => true
  | folders => true
  | oneOf items => items.any (ClassItem.holds x)
  | noneOf items => !items.any (ClassItem.holds x)

/-- Whether some end of the characters, all of them included, has a property. -/
def anyEnd (p : List Char → Bool) : List Char → Bool
  | [] => p []
  | c :: rest => p (c :: rest) || anyEnd p rest

/-- Whether the tokens use up a name. -/
def matchesName : List Token → List Char → Bool
  | [], name => name.isEmpty
  | .many :: ts, name => anyEnd (matchesName ts) name
  | .folders :: ts, name => anyEnd (matchesName ts) name
  | _ :: _, [] => false
  | t :: ts, c :: name => t.allows c && matchesName ts name

/-- Whether a text has a character that makes it a pattern. -/
def isPattern (s : String) : Bool :=
  s.toList.any (fun c => c == '*' || c == '?' || c == '[')

/-- The character that every token stands for, if all tokens stand for themselves. -/
def literal? : List Token → Option (List Char)
  | [] => some []
  | .char c :: ts => (literal? ts).map (c :: ·)
  | _ :: _ => none

end BatchCodec.Pattern
