/-!
Replacing one text inside another.

Occurrences are found from left to right and do not overlap; what is inserted is not searched again.
-/

namespace BatchCodec.Text

/-- Replaces the occurrences of a non-empty `needle`; the first `skip` characters belong to the
occurrence found last and are dropped. -/
def replaceFrom (needle insert : List Char) : Nat → List Char → List Char
  | _, [] => []
  | skip + 1, _ :: rest => replaceFrom needle insert skip rest
  | 0, c :: rest =>
    if needle.isPrefixOf (c :: rest) then
      insert ++ replaceFrom needle insert (needle.length - 1) rest
    else c :: replaceFrom needle insert 0 rest

/-- The text with every occurrence of a non-empty `needle` replaced by `insert`. -/
def replaceAll (s needle insert : String) : String :=
  String.ofList (replaceFrom needle.toList insert.toList 0 s.toList)

end BatchCodec.Text
