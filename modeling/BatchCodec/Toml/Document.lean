import BatchCodec.Toml.Lexical
import BatchCodec.Toml.Value
import BatchCodec.Toml.Word

/-!
Reading a TOML document, version 1.1.

The document is read line by line: a header opens a table, and a key with a value adds to the table
opened last. Lists and tables between braces may be eighty deep. A text that is not well formed, or
that says the same thing twice, has no value at all.
-/

namespace BatchCodec.Toml

/-- How deep lists and tables between braces may be nested. -/
def maxDepth : Nat := 80

def key? (cs : List Char) : Option (String × List Char) :=
  match cs with
  | '\x22' :: rest => (basicString rest).map fun (k, rest) => (String.ofList k, rest)
  | '\x27' :: rest => (literalString rest).map fun (k, rest) => (String.ofList k, rest)
  | _ =>
    match cs.takeWhile isBare with
    | [] => none
    | k => some (String.ofList k, cs.dropWhile isBare)

def moreKeys : Nat → List Char → Option (List String × List Char)
  | 0, _ => none
  | fuel + 1, cs =>
    match skipBlanks cs with
    | '.' :: rest =>
      match key? (skipBlanks rest) with
      | none => none
      | some (k, rest) => (moreKeys fuel rest).map fun (ks, rest) => (k :: ks, rest)
    | rest => some ([], rest)

/-- A dotted key, as the keys that lead to it, the last key, and the characters behind it and the
blanks that follow. -/
def dottedKey? (cs : List Char) : Option (List String × String × List Char) :=
  match key? cs with
  | none => none
  | some (k, rest) =>
    match moreKeys (cs.length + 1) rest with
    | none => none
    | some (ks, rest) => some ((k :: ks).dropLast, (k :: ks).getLastD k, rest)

def stringValue (r : Option Read) : Option (Value × List Char) :=
  r.map fun (s, rest) => (.scalar (.string (String.ofList s)), rest)

mutual

/-- A value; `depth` says how many lists and tables may still be opened. -/
def value? : Nat → Nat → List Char → Option (Value × List Char)
  | 0, _, _ => none
  | fuel + 1, depth, cs =>
    match cs with
    | '\x22' :: '\x22' :: '\x22' :: rest => stringValue (basicText (skipFirstLineEnd rest))
    | '\x22' :: rest => stringValue (basicString rest)
    | '\x27' :: '\x27' :: '\x27' :: rest => stringValue (literalText (skipFirstLineEnd rest))
    | '\x27' :: rest => stringValue (literalString rest)
    | '[' :: rest =>
      match depth with
      | 0 => none
      | depth + 1 => (items? fuel depth rest).map fun (items, rest) => (.array items, rest)
    | '\x7b' :: rest =>
      match depth with
      | 0 => none
      | depth + 1 => (members? fuel depth [] rest).map fun (ms, rest) => (.table .braces ms, rest)
    | _ =>
      let (word, rest) := splitWord cs
      (word? word).map fun s => (.scalar s, rest)

/-- The items of a list up to its closing bracket. -/
def items? : Nat → Nat → List Char → Option (List Value × List Char)
  | 0, _, _ => none
  | fuel + 1, depth, cs =>
    match skipTrivia cs with
    | none => none
    | some (']' :: rest) => some ([], rest)
    | some cs =>
      match value? fuel depth cs with
      | none => none
      | some (v, rest) =>
        match skipTrivia rest with
        | some (',' :: rest) => (items? fuel depth rest).map fun (vs, rest) => (v :: vs, rest)
        | some (']' :: rest) => some ([v], rest)
        | _ => none

/-- The members of a table up to its closing brace, after those already read. -/
def members? : Nat → Nat → Members → List Char → Option (Members × List Char)
  | 0, _, _, _ => none
  | fuel + 1, depth, ms, cs =>
    match skipTrivia cs with
    | none => none
    | some ('\x7d' :: rest) => some (ms, rest)
    | some cs =>
      match dottedKey? cs with
      | some (path, key, '=' :: rest) =>
        match value? fuel depth (skipBlanks rest) with
        | none => none
        | some (v, rest) =>
          match ms.add path key v, skipTrivia rest with
          | some ms, some (',' :: rest) => members? fuel depth ms rest
          | some ms, some ('\x7d' :: rest) => some (ms, rest)
          | _, _ => none
      | _ => none

end

/-- A document being read: what has been read so far, and the keys of the table opened last. -/
structure Draft where
  members : Members
  current : List String

/-- A line of a document: nothing, a header, a double header, or a key with a value. -/
def line? (draft : Draft) (cs : List Char) : Option (Draft × List Char) :=
  match skipBlanks cs with
  | [] => some (draft, [])
  | '\n' :: rest => some (draft, rest)
  | '\r' :: '\n' :: rest => some (draft, rest)
  | '#' :: rest => (endComment rest).map fun rest => (draft, rest)
  | '[' :: '[' :: rest =>
    match dottedKey? (skipBlanks rest) with
    | some (path, key, ']' :: ']' :: rest) =>
      match draft.members.openElement path key, endLine rest with
      | some ms, some rest => some (⟨ms, path ++ [key]⟩, rest)
      | _, _ => none
    | _ => none
  | '[' :: rest =>
    match dottedKey? (skipBlanks rest) with
    | some (path, key, ']' :: rest) =>
      match draft.members.openTable path key, endLine rest with
      | some ms, some rest => some (⟨ms, path ++ [key]⟩, rest)
      | _, _ => none
    | _ => none
  | cs =>
    match dottedKey? cs with
    | some (path, key, '=' :: rest) =>
      match value? (2 * cs.length + 2) maxDepth (skipBlanks rest) with
      | none => none
      | some (v, rest) =>
        match draft.members.addBelow draft.current path key v, endLine rest with
        | some ms, some rest => some ({ draft with members := ms }, rest)
        | _, _ => none
    | _ => none

/-- The lines of a document; every line but an empty last one takes at least one character. -/
def lines? : Nat → Draft → List Char → Option Members
  | _, draft, [] => some draft.members
  | 0, _, _ => none
  | fuel + 1, draft, cs =>
    match line? draft cs with
    | none => none
    | some (draft, rest) => lines? fuel draft rest

/-- Reads a document; a byte order mark in front of it is left out. -/
def read? (text : String) : Option Members :=
  let cs := match text.toList with
    | '\ufeff' :: rest => rest
    | cs => cs
  lines? cs.length ⟨[], []⟩ cs

end BatchCodec.Toml
