/-!
Reading bytes as UTF-8 without ever failing.

A byte sequence that is not UTF-8 is cut into its longest beginnings that some valid sequence
shares; each such beginning, and each byte that begins none, is read as one replacement character.
The reader is a machine with one state: how the sequence being read may still go on.
-/

namespace BatchCodec.Text

/-- What stands for a byte sequence that encodes no character. -/
def replacementChar : Char := '\uFFFD'

/-- A sequence begun but not ended: the bits read so far, the bounds of the next byte, and how many
bytes follow that one. -/
structure Utf8Partial where
  code : Nat
  low : Nat
  high : Nat
  left : Nat

/-- What a byte does at the beginning of a sequence: it ends it or leaves it unfinished. -/
inductive Utf8Start where
  | char (c : Char)
  | more (p : Utf8Partial)

/-- The first byte of a sequence. The bounds of the second byte exclude overlong forms, surrogates
and code points above U+10FFFF. -/
def utf8Start (b : Nat) : Utf8Start :=
  if b < 0x80 then .char (Char.ofNat b)
  else if 0xC2 ≤ b && b ≤ 0xDF then .more ⟨b - 0xC0, 0x80, 0xBF, 0⟩
  else if b == 0xE0 then .more ⟨0, 0xA0, 0xBF, 1⟩
  else if b == 0xED then .more ⟨0xD, 0x80, 0x9F, 1⟩
  else if 0xE1 ≤ b && b ≤ 0xEF then .more ⟨b - 0xE0, 0x80, 0xBF, 1⟩
  else if b == 0xF0 then .more ⟨0, 0x90, 0xBF, 2⟩
  else if 0xF1 ≤ b && b ≤ 0xF3 then .more ⟨b - 0xF0, 0x80, 0xBF, 2⟩
  else if b == 0xF4 then .more ⟨4, 0x80, 0x8F, 2⟩
  else .char replacementChar

def decodeFrom : Option Utf8Partial → List UInt8 → List Char
  | none, [] => []
  | some _, [] => [replacementChar]
  | none, b :: rest =>
    match utf8Start b.toNat with
    | .char c => c :: decodeFrom none rest
    | .more p => decodeFrom (some p) rest
  | some p, b :: rest =>
    if p.low ≤ b.toNat && b.toNat ≤ p.high then
      let code := p.code * 0x40 + (b.toNat - 0x80)
      match p.left with
      | 0 => Char.ofNat code :: decodeFrom none rest
      | left + 1 => decodeFrom (some ⟨code, 0x80, 0xBF, left⟩) rest
    else
      match utf8Start b.toNat with
      | .char c => replacementChar :: c :: decodeFrom none rest
      | .more q => replacementChar :: decodeFrom (some q) rest

/-- The characters that the bytes encode, with replacement characters where they encode none. -/
def decodeUtf8 (bytes : List UInt8) : String :=
  String.ofList (decodeFrom none bytes)

end BatchCodec.Text
