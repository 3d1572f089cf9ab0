import BatchCodec.Toml.Lexical
import BatchCodec.Toml.Value

/-!
Bare words of TOML documents: truth values, numbers, dates and times.

A document holds such a word only to say what kind of value stands there, so a float and a date are
checked and not kept. An integer must fit one hundred and twenty-eight bits, with or without sign,
and a float must not be too large for its format.
-/

namespace BatchCodec.Toml

/-- Whether digits are grouped well: single underscores, each between two digits. -/
def grouped (isDigit : Char → Bool) : List Char → Bool
  | [] => false
  | [c] => isDigit c
  | c :: '_' :: rest => isDigit c && grouped isDigit rest
  | c :: rest => isDigit c && grouped isDigit rest

/-- The number that grouped digits write in a base. -/
def groupedNumber (base : Nat) (cs : List Char) : Nat :=
  (cs.filter (· != '_')).foldl (fun n c => n * base + (hexValue? c).getD 0) 0

/-- The sign of a number, true if it is a minus, and what follows it. -/
def splitSign : List Char → Bool × List Char
  | '+' :: rest => (false, rest)
  | '-' :: rest => (true, rest)
  | cs => (false, cs)

/-- Whether characters are a whole number in base ten: grouped digits with no leading zero. -/
def isWhole : List Char → Bool
  | ['0'] => true
  | '0' :: _ => false
  | cs => grouped Char.isDigit cs

/-- A number that fits one hundred and twenty-eight bits, with or without sign. -/
def fitting (n : Int) : Option Scalar :=
  if -(Int.pow 2 127) ≤ n ∧ n < Int.pow 2 128 then some (.integer n) else none

/-- An integer: in base ten with an optional sign, or in base sixteen, eight or two. -/
def integer? (cs : List Char) : Option Scalar :=
  match cs with
  | '0' :: 'x' :: digits =>
    if grouped (fun c => (hexValue? c).isSome) digits then fitting (groupedNumber 16 digits)
    else none
  | '0' :: 'o' :: digits =>
    if grouped (fun c => '0' ≤ c && c ≤ '7') digits then fitting (groupedNumber 8 digits)
    else none
  | '0' :: 'b' :: digits =>
    if grouped (fun c => c == '0' || c == '1') digits then fitting (groupedNumber 2 digits)
    else none
  | _ =>
    let (minus, digits) := splitSign cs
    if isWhole digits then
      let n : Int := groupedNumber 10 digits
      fitting (if minus then -n else n)
    else none

/-- Whether `digits` times ten to the power of `exponent` is too large for a binary64 number. -/
def overflows (digits : Nat) (exponent : Int) : Bool :=
  if digits = 0 then false
  else if 400 < exponent then true
  else if 0 ≤ exponent then
    (Nat.pow 2 54 - 1) * Nat.pow 2 970 ≤ digits * Nat.pow 10 exponent.toNat
  else if exponent < -((Nat.toDigits 10 digits).length : Int) then false
  else (Nat.pow 2 54 - 1) * Nat.pow 2 970 * Nat.pow 10 (-exponent).toNat ≤ digits

/-- The exponent of a float: nothing, or a mark with grouped digits that may have a sign. -/
def exponent? : List Char → Option Int
  | [] => some 0
  | mark :: rest =>
    let (minus, digits) := splitSign rest
    if (mark == 'e' || mark == 'E') && grouped Char.isDigit digits then
      let n : Int := groupedNumber 10 digits
      some (if minus then -n else n)
    else none

/-- A float: a whole number with a fraction, an exponent or both, or a name for what is not finite. -/
def float? (cs : List Char) : Option Scalar :=
  let (_, body) := splitSign cs
  if body = ['i', 'n', 'f'] ∨ body = ['n', 'a', 'n'] then some .float
  else
    let isPart := fun c => c.isDigit || c == '_'
    let whole := body.takeWhile isPart
    let rest := body.dropWhile isPart
    if rest.isEmpty || !isWhole whole then none
    else
      let checked (places : List Char) (rest : List Char) : Option Scalar :=
        match exponent? rest with
        | none => none
        | some e =>
          let count := (places.filter (· != '_')).length
          if overflows (groupedNumber 10 (whole ++ places)) (e - count) then none else some .float
      match rest with
      | '.' :: rest =>
        let places := rest.takeWhile isPart
        if grouped Char.isDigit places then checked places (rest.dropWhile isPart) else none
      | _ => checked [] rest

def pair? (a b : Char) : Option Nat :=
  if a.isDigit && b.isDigit then some ((a.toNat - 48) * 10 + (b.toNat - 48)) else none

def daysIn (year month : Nat) : Nat :=
  if month = 2 then
    if year % 4 = 0 ∧ (year % 100 ≠ 0 ∨ year % 400 = 0) then 29 else 28
  else if month = 4 ∨ month = 6 ∨ month = 9 ∨ month = 11 then 30
  else 31

def skipDate : List Char → Option (List Char)
  | a :: b :: c :: d :: '-' :: e :: f :: '-' :: g :: h :: rest =>
    match pair? a b, pair? c d, pair? e f, pair? g h with
    | some century, some year, some month, some day =>
      if 1 ≤ month ∧ month ≤ 12 ∧ 1 ≤ day ∧ day ≤ daysIn (century * 100 + year) month then some rest
      else none
    | _, _, _, _ => none
  | _ => none

/-- What follows the hours and minutes of a time or an offset. -/
def skipMinutes : List Char → Option (List Char)
  | a :: b :: ':' :: c :: d :: rest =>
    match pair? a b, pair? c d with
    | some hour, some minute => if hour ≤ 23 ∧ minute ≤ 59 then some rest else none
    | _, _ => none
  | _ => none

/-- What follows the seconds of a time, which may be left out and may have a fraction. -/
def skipSeconds : List Char → Option (List Char)
  | ':' :: a :: b :: rest =>
    match pair? a b with
    | some second =>
      if 60 < second then none
      else match rest with
        | '.' :: c :: rest => if c.isDigit then some (rest.dropWhile Char.isDigit) else none
        | _ => some rest
    | none => none
  | ':' :: _ => none
  | rest => some rest

def skipTime (cs : List Char) : Option (List Char) :=
  (skipMinutes cs).bind skipSeconds

/-- Whether characters are nothing, or the offset of a time zone. -/
def isOffset : List Char → Bool
  | [] => true
  | ['Z'] => true
  | ['z'] => true
  | '+' :: rest => skipMinutes rest == some []
  | '-' :: rest => skipMinutes rest == some []
  | _ => false

/-- A date, a time, or a date and a time with an optional offset. -/
def moment? (cs : List Char) : Option Scalar :=
  match skipDate cs with
  | some [] => some .moment
  | some (mark :: rest) =>
    if mark == 'T' || mark == 't' || mark == ' ' then
      match skipTime rest with
      | some offset => if isOffset offset then some .moment else none
      | none => none
    else none
  | none => if skipTime cs = some [] then some .moment else none

def word? (cs : List Char) : Option Scalar :=
  if cs = ['t', 'r', 'u', 'e'] then some (.boolean true)
  else if cs = ['f', 'a', 'l', 's', 'e'] then some (.boolean false)
  else (integer? cs).or ((float? cs).or (moment? cs))

/-- Splits off a bare word. A date, a single blank and a digit belong to one word. -/
def splitWord (cs : List Char) : List Char × List Char :=
  let word := cs.takeWhile isWordChar
  let rest := cs.dropWhile isWordChar
  match skipDate word, rest with
  | some [], ' ' :: c :: rest =>
    if c.isDigit then
      (word ++ ' ' :: c :: rest.takeWhile isWordChar, rest.dropWhile isWordChar)
    else (word, ' ' :: c :: rest)
  | _, _ => (word, rest)

end BatchCodec.Toml
