import BatchCodec.Text.Utf8
/-!
Reading bytes that need not be UTF-8, against what UTF-8 encodes.

The rule is stated without the reader. Where the bytes go on with the encoding of a character, that
character is read. Where they do not, the longest stretch that still begins an encoding, or else one
byte, is read as a single replacement character (`Broken`). Following the rule from the first byte to
the last is `LossilyRead`. The reader itself goes byte by byte and keeps the bounds of the next one;
what ties the two is the set of code points that a state of the reader admits (`Follows`). Every
sequence of bytes has one reading, and it is the one that the reader gives (`lossilyRead_iff`).
-/

namespace BatchCodec.Text

/-- The bytes begin the encoding of some character. -/
def Begins (bytes : List UInt8) : Prop := ∃ c : Char, bytes <+: String.utf8EncodeChar c

/-- Bytes in front of `rest` that are read as one replacement character. -/
structure Broken (bytes rest : List UInt8) : Prop where
  no_char : ∀ c : Char, ¬String.utf8EncodeChar c <+: bytes ++ rest
  begins : bytes.length = 1 ∨ Begins bytes
  ne_nil : bytes ≠ []
  longest : ∀ b, rest.head? = some b → ¬Begins (bytes ++ [b])

/-- The characters as which bytes are read. -/
inductive LossilyRead : List UInt8 → List Char → Prop where
  | nil : LossilyRead [] []
  | char {c : Char} {rest : List UInt8} {cs : List Char} :
    LossilyRead rest cs → LossilyRead (String.utf8EncodeChar c ++ rest) (c :: cs)
  | broken {bytes rest : List UInt8} {cs : List Char} :
    Broken bytes rest → LossilyRead rest cs →
      LossilyRead (bytes ++ rest) (replacementChar :: cs)

/-! ## Encodings as a lead byte and tails of six bits -/

/-- A number without its last `k` groups of six bits. -/
def upper : Nat → Nat → Nat
  | 0, n => n
  | k + 1, n => upper k n / 64

/-- The last `k` groups of six bits, a byte each. -/
def tails : Nat → Nat → List UInt8
  | 0, _ => []
  | k + 1, n => UInt8.ofNat (0x80 + upper k n % 64) :: tails k n

theorem exists_upper (k m : Nat) : ∃ n, upper k n = m := by
  induction k generalizing m with
  | zero => exact ⟨m, rfl⟩
  | succ k ih =>
    obtain ⟨n, hn⟩ := ih (m * 64)
    exact ⟨n, by rw [upper, hn]; omega⟩

def tailCount (n : Nat) : Nat :=
  if n ≤ 0x7F then 0 else if n ≤ 0x7FF then 1 else if n ≤ 0xFFFF then 2 else 3

def leadByte (n : Nat) : Nat :=
  if n ≤ 0x7F then n
  else if n ≤ 0x7FF then 0xC0 + n / 0x40
  else if n ≤ 0xFFFF then 0xE0 + n / 0x1000
  else 0xF0 + n / 0x40000

theorem toNat_valid (c : Char) : c.toNat.isValidChar := c.valid

theorem toNat_ofNat {n : Nat} (h : n.isValidChar) : (Char.ofNat n).toNat = n := by
  rw [Char.ofNat, dif_pos h]
  rfl

theorem lt_of_isValidChar {n : Nat} (h : n.isValidChar) : n < 0x110000 := by
  rcases h with h | h <;> omega

theorem utf8EncodeChar_eq (c : Char) :
    String.utf8EncodeChar c =
      UInt8.ofNat (leadByte c.toNat) :: tails (tailCount c.toNat) c.toNat := by
  have hbound : c.toNat < 0x110000 := lt_of_isValidChar (toNat_valid c)
  have hn : c.val.toNat = c.toNat := rfl
  simp only [String.utf8EncodeChar, hn, leadByte, tailCount]
  generalize c.toNat = n at hbound
  split
  · rfl
  split
  · have hlead : n / 64 % 32 + 192 = 0xC0 + n / 64 := by omega
    simp only [tails, upper, hlead, Nat.add_comm]
  split
  · have hlead : n / 4096 % 16 + 224 = 0xE0 + n / 4096 := by omega
    simp only [tails, upper, hlead, Nat.add_comm]
  · have hlead : n / 262144 % 8 + 240 = 0xF0 + n / 262144 := by omega
    have hfirst : n / 4096 = n / 64 / 64 := by omega
    simp only [tails, upper, hlead, hfirst, Nat.add_comm]

theorem leadByte_lt {n : Nat} (h : n.isValidChar) : leadByte n < 256 := by
  have hbound := lt_of_isValidChar h
  unfold leadByte
  split
  · omega
  split
  · omega
  split <;> omega

theorem leadByte_of_isPrefix {b : UInt8} {more : List UInt8} {c : Char}
    (h : b :: more <+: String.utf8EncodeChar c) : leadByte c.toNat = b.toNat := by
  rw [utf8EncodeChar_eq, List.cons_prefix_cons] at h
  rw [h.1, UInt8.toNat_ofNat', Nat.mod_eq_of_lt (leadByte_lt (toNat_valid c))]

/-- The encoding of one character is not the beginning of another's. -/
theorem eq_of_encoding_isPrefix_encoding {c c' : Char}
    (h : String.utf8EncodeChar c <+: String.utf8EncodeChar c') : c = c' := by
  obtain ⟨rest, hrest⟩ := h
  have hc := @ByteArray.utf8DecodeChar?_utf8EncodeChar_append rest.toByteArray c
  have hc' := @ByteArray.utf8DecodeChar?_utf8EncodeChar_append [].toByteArray c'
  rw [← List.toByteArray_append, hrest] at hc
  rw [← List.toByteArray_append, List.append_nil, hc] at hc'
  exact Option.some.inj hc'

/-! ## What a state of the reader stands for -/

namespace Utf8Partial

/-- The sequence may still come to encode the code point. -/
def Admits (p : Utf8Partial) (n : Nat) : Prop :=
  upper (p.left + 1) n = p.code ∧ p.low ≤ 0x80 + upper p.left n % 64 ∧
    0x80 + upper p.left n % 64 ≤ p.high

/-- The state after reading the bytes of `seen`: the encodings that begin with them are those of the
code points the state admits, and they go on with the tails still to be read. -/
structure Follows (p : Utf8Partial) (seen : List UInt8) : Prop where
  bounds : 0x80 ≤ p.low ∧ p.low ≤ p.high ∧ p.high ≤ 0xBF
  ne_nil : seen ≠ []
  valid : ∀ n, p.Admits n → n.isValidChar
  encoding : ∀ c : Char, p.Admits c.toNat →
    String.utf8EncodeChar c = seen ++ tails (p.left + 1) c.toNat
  admits : ∀ c : Char, seen <+: String.utf8EncodeChar c → p.Admits c.toNat

section Follows

variable {p : Utf8Partial} {seen : List UInt8} {b : UInt8}

/-- A byte within the bounds is the next tail of the code points with its bits. -/
theorem Follows.admits_of_upper (h : p.Follows seen) (hlow : p.low ≤ b.toNat)
    (hhigh : b.toNat ≤ p.high) {n : Nat} (hn : upper p.left n = p.code * 0x40 + (b.toNat - 0x80)) :
    p.Admits n ∧ UInt8.ofNat (0x80 + upper p.left n % 64) = b := by
  obtain ⟨hlo, -, hhi⟩ := h.bounds
  have hmod : 0x80 + upper p.left n % 64 = b.toNat := by omega
  refine ⟨⟨?_, ?_, ?_⟩, ?_⟩
  · rw [upper]
    omega
  · omega
  · omega
  · rw [hmod, UInt8.ofNat_toNat]

theorem Follows.exists_char (h : p.Follows seen) : ∃ c : Char, p.Admits c.toNat := by
  obtain ⟨hlo, hle, hhi⟩ := h.bounds
  have hlow : (UInt8.ofNat p.low).toNat = p.low := by
    rw [UInt8.toNat_ofNat']
    omega
  obtain ⟨n, hn⟩ := exists_upper p.left (p.code * 0x40 + ((UInt8.ofNat p.low).toNat - 0x80))
  obtain ⟨hadmits, -⟩ := h.admits_of_upper (by omega) (by omega) hn
  refine ⟨Char.ofNat n, ?_⟩
  rwa [toNat_ofNat (h.valid n hadmits)]

/-- An encoding that begins with the bytes goes on with a byte within the bounds. -/
theorem Follows.exists_tail (h : p.Follows seen) {c : Char}
    (hc : seen <+: String.utf8EncodeChar c) :
    ∃ b, String.utf8EncodeChar c = seen ++ b :: tails p.left c.toNat ∧
      p.low ≤ b.toNat ∧ b.toNat ≤ p.high ∧
      upper p.left c.toNat = p.code * 0x40 + (b.toNat - 0x80) := by
  have hadmits := h.admits c hc
  refine ⟨UInt8.ofNat (0x80 + upper p.left c.toNat % 64), h.encoding c hadmits, ?_⟩
  obtain ⟨hcode, hlow, hhigh⟩ := hadmits
  rw [upper] at hcode
  rw [UInt8.toNat_ofNat']
  omega

theorem Follows.tail_of_isPrefix (h : p.Follows seen) {c : Char}
    (hc : seen ++ [b] <+: String.utf8EncodeChar c) :
    p.low ≤ b.toNat ∧ b.toNat ≤ p.high ∧
      upper p.left c.toNat = p.code * 0x40 + (b.toNat - 0x80) := by
  obtain ⟨b', hencoding, htail⟩ := h.exists_tail ((List.prefix_append _ _).trans hc)
  rw [hencoding, List.prefix_append_right_inj, List.cons_prefix_cons] at hc
  rwa [hc.1]

/-- What is read next continues an encoding only if it is within the bounds. -/
theorem Follows.refuses (h : p.Follows seen) (hb : ¬(p.low ≤ b.toNat ∧ b.toNat ≤ p.high)) :
    ¬Begins (seen ++ [b]) := by
  rintro ⟨c, hc⟩
  obtain ⟨hlow, hhigh, -⟩ := h.tail_of_isPrefix hc
  exact hb ⟨hlow, hhigh⟩

theorem Follows.completes (h : p.Follows seen) (hlow : p.low ≤ b.toNat) (hhigh : b.toNat ≤ p.high)
    (hleft : p.left = 0) :
    String.utf8EncodeChar (Char.ofNat (p.code * 0x40 + (b.toNat - 0x80))) = seen ++ [b] := by
  have hn : upper p.left (p.code * 0x40 + (b.toNat - 0x80)) =
      p.code * 0x40 + (b.toNat - 0x80) := by rw [hleft, upper]
  obtain ⟨hadmits, hb⟩ := h.admits_of_upper hlow hhigh hn
  have hc := toNat_ofNat (h.valid _ hadmits)
  rw [h.encoding _ (by rwa [hc]), hc, tails, hb, hleft, tails]

theorem Follows.continues (h : p.Follows seen) (hlow : p.low ≤ b.toNat) (hhigh : b.toNat ≤ p.high)
    {left : Nat} (hleft : p.left = left + 1) :
    (⟨p.code * 0x40 + (b.toNat - 0x80), 0x80, 0xBF, left⟩ : Utf8Partial).Follows (seen ++ [b]) := by
  have hadmits : ∀ n, Admits ⟨p.code * 0x40 + (b.toNat - 0x80), 0x80, 0xBF, left⟩ n →
      p.Admits n ∧ UInt8.ofNat (0x80 + upper p.left n % 64) = b := by
    rintro n ⟨hcode, -⟩
    apply h.admits_of_upper hlow hhigh
    rw [hleft]
    exact hcode
  refine ⟨by simp, by simp, ?_, ?_, ?_⟩
  · intro n hn
    exact h.valid n (hadmits n hn).1
  · intro c hc
    obtain ⟨hbefore, hb⟩ := hadmits c.toNat hc
    rw [h.encoding c hbefore, tails, hb, hleft, List.append_assoc]
    rfl
  · intro c hc
    obtain ⟨-, -, hupper⟩ := h.tail_of_isPrefix hc
    rw [hleft] at hupper
    refine ⟨hupper, ?_, ?_⟩
    · show 0x80 ≤ 0x80 + _ % 64
      omega
    · show 0x80 + _ % 64 ≤ 0xBF
      omega

/-- The bytes read so far encode no character yet. -/
theorem Follows.encoding_not_isPrefix (h : p.Follows seen) (c : Char) :
    ¬String.utf8EncodeChar c <+: seen := by
  intro hc
  obtain ⟨c', hadmits⟩ := h.exists_char
  have hencoding := h.encoding c' hadmits
  have hseen : seen <+: String.utf8EncodeChar c' := hencoding ▸ List.prefix_append _ _
  have heq := eq_of_encoding_isPrefix_encoding (hc.trans hseen)
  have hlength := hc.length_le
  rw [heq, hencoding, List.length_append, tails, List.length_cons] at hlength
  omega

/-- If the next byte does not continue the sequence, or there is none, the sequence is broken. -/
theorem Follows.broken (h : p.Follows seen) {rest : List UInt8}
    (hrest : ∀ b, rest.head? = some b → ¬(p.low ≤ b.toNat ∧ b.toNat ≤ p.high)) :
    Broken seen rest := by
  obtain ⟨c', hadmits⟩ := h.exists_char
  have hbegins : Begins seen := ⟨c', h.encoding c' hadmits ▸ List.prefix_append _ _⟩
  refine ⟨?_, Or.inr hbegins, h.ne_nil, fun b hb => h.refuses (hrest b hb)⟩
  intro c hc
  rcases List.prefix_or_prefix_of_prefix hc (List.prefix_append seen rest) with hshort | hlong
  · exact h.encoding_not_isPrefix c hshort
  · obtain ⟨b, hencoding, hlow, hhigh, -⟩ := h.exists_tail hlong
    rw [hencoding, List.prefix_append_right_inj] at hc
    obtain ⟨more, hmore⟩ := hc
    exact hrest b (by rw [← hmore]; rfl) ⟨hlow, hhigh⟩

end Follows

/-- The state after a first byte, by what the byte and the state say of the code points. -/
theorem follows_of_lead {p : Utf8Partial} {b : UInt8}
    (hbounds : 0x80 ≤ p.low ∧ p.low ≤ p.high ∧ p.high ≤ 0xBF)
    (hlead : ∀ n, n.isValidChar → leadByte n = b.toNat → p.Admits n)
    (hadmits : ∀ n, p.Admits n →
      n.isValidChar ∧ leadByte n = b.toNat ∧ tailCount n = p.left + 1) :
    p.Follows [b] := by
  refine ⟨hbounds, by simp, fun n hn => (hadmits n hn).1, ?_, ?_⟩
  · intro c hc
    obtain ⟨-, hb, hcount⟩ := hadmits c.toNat hc
    rw [utf8EncodeChar_eq, hb, hcount, UInt8.ofNat_toNat]
    rfl
  · intro c hc
    exact hlead c.toNat (toNat_valid c) (leadByte_of_isPrefix hc)

theorem utf8Start_more {p : Utf8Partial} {b : Nat} (h : utf8Start b = .more p) :
    (0xC2 ≤ b ∧ b ≤ 0xDF ∧ p = ⟨b - 0xC0, 0x80, 0xBF, 0⟩) ∨
    (b = 0xE0 ∧ p = ⟨0, 0xA0, 0xBF, 1⟩) ∨
    (b = 0xED ∧ p = ⟨0xD, 0x80, 0x9F, 1⟩) ∨
    (0xE1 ≤ b ∧ b ≤ 0xEF ∧ b ≠ 0xED ∧ p = ⟨b - 0xE0, 0x80, 0xBF, 1⟩) ∨
    (b = 0xF0 ∧ p = ⟨0, 0x90, 0xBF, 2⟩) ∨
    (0xF1 ≤ b ∧ b ≤ 0xF3 ∧ p = ⟨b - 0xF0, 0x80, 0xBF, 2⟩) ∨
    (b = 0xF4 ∧ p = ⟨4, 0x80, 0x8F, 2⟩) := by
  revert h
  fun_cases utf8Start b
  all_goals
    intro h
    grind

theorem follows_start {p : Utf8Partial} {b : UInt8} (h : utf8Start b.toNat = .more p) :
    p.Follows [b] := by
  rcases utf8Start_more h with ⟨hlow, hhigh, rfl⟩ | ⟨hb, rfl⟩ | ⟨hb, rfl⟩ |
    ⟨hlow, hhigh, hne, rfl⟩ | ⟨hb, rfl⟩ | ⟨hlow, hhigh, rfl⟩ | ⟨hb, rfl⟩
  all_goals
    refine follows_of_lead (by simp) ?_ ?_
    · grind [Admits, leadByte, upper]
    · grind [Admits, leadByte, tailCount, upper]

end Utf8Partial

theorem utf8Start_char {c : Char} {b : Nat} (h : utf8Start b = .char c) :
    (b < 0x80 ∧ c = Char.ofNat b) ∨
    ((0x80 ≤ b ∧ b ≤ 0xC1 ∨ 0xF5 ≤ b) ∧ c = replacementChar) := by
  revert h
  fun_cases utf8Start b
  all_goals
    intro h
    grind [Bool.and_eq_false_iff]

theorem utf8EncodeChar_ofNat {b : UInt8} (h : b.toNat < 0x80) :
    String.utf8EncodeChar (Char.ofNat b.toNat) = [b] := by
  have hle : b.toNat ≤ 0x7F := by omega
  have hc : (Char.ofNat b.toNat).toNat = b.toNat := toNat_ofNat (Or.inl (by omega))
  simp [utf8EncodeChar_eq, hc, leadByte, tailCount, hle, tails]

/-- A byte that begins no encoding is broken wherever it stands. -/
theorem broken_singleton {b : UInt8} (h : 0x80 ≤ b.toNat ∧ b.toNat ≤ 0xC1 ∨ 0xF5 ≤ b.toNat)
    (rest : List UInt8) : Broken [b] rest := by
  have hnone : ∀ c : Char, ∀ more, ¬b :: more <+: String.utf8EncodeChar c := by
    intro c more hc
    have hlead := leadByte_of_isPrefix hc
    have hvalid := toNat_valid c
    grind [leadByte]
  refine ⟨?_, Or.inl rfl, by simp, ?_⟩
  · intro c hc
    rw [utf8EncodeChar_eq, List.singleton_append, List.cons_prefix_cons] at hc
    exact hnone c [] (by rw [utf8EncodeChar_eq, hc.1]; simp)
  · rintro b' - ⟨c, hc⟩
    exact hnone c [b'] hc

/-! ## The reader -/

theorem decodeFrom_refused {p : Utf8Partial} {b : UInt8} (rest : List UInt8)
    (h : ¬(p.low ≤ b.toNat ∧ b.toNat ≤ p.high)) :
    decodeFrom (some p) (b :: rest) = replacementChar :: decodeFrom none (b :: rest) := by
  have hcond : (p.low ≤ b.toNat && b.toNat ≤ p.high) = false := by simpa using h
  simp only [decodeFrom, hcond]
  cases utf8Start b.toNat <;> rfl

/-- What the reader gives is a reading, from the beginning and from any state. -/
theorem lossilyRead_decodeFrom (bytes : List UInt8) :
    LossilyRead bytes (decodeFrom none bytes) ∧
    ∀ p seen, Utf8Partial.Follows p seen →
      LossilyRead (seen ++ bytes) (decodeFrom (some p) bytes) := by
  induction bytes with
  | nil =>
    refine ⟨.nil, ?_⟩
    intro p seen h
    exact .broken (h.broken (by simp)) .nil
  | cons b rest ih =>
    have hstart : LossilyRead (b :: rest) (decodeFrom none (b :: rest)) := by
      simp only [decodeFrom]
      cases hb : utf8Start b.toNat with
      | char c =>
        rcases utf8Start_char hb with ⟨hlt, rfl⟩ | ⟨hbroken, rfl⟩
        · have hread := LossilyRead.char (c := Char.ofNat b.toNat) ih.1
          rwa [utf8EncodeChar_ofNat hlt] at hread
        · exact .broken (broken_singleton hbroken rest) ih.1
      | more p => exact ih.2 p [b] (Utf8Partial.follows_start hb)
    refine ⟨hstart, ?_⟩
    intro p seen h
    by_cases hb : p.low ≤ b.toNat ∧ b.toNat ≤ p.high
    · have hcond : (p.low ≤ b.toNat && b.toNat ≤ p.high) = true := by simpa using hb
      rw [← List.singleton_append, ← List.append_assoc]
      simp only [decodeFrom, List.singleton_append, hcond, if_true]
      cases hleft : p.left with
      | zero =>
        have hread := LossilyRead.char (c := Char.ofNat (p.code * 0x40 + (b.toNat - 0x80))) ih.1
        rwa [h.completes hb.1 hb.2 hleft] at hread
      | succ left => exact ih.2 _ _ (h.continues hb.1 hb.2 hleft)
    · rw [decodeFrom_refused rest hb]
      refine .broken (h.broken ?_) hstart
      intro b' hb'
      rw [List.head?_cons, Option.some.injEq] at hb'
      rwa [← hb']

/-! ## There is no other reading -/

theorem LossilyRead.cases_append {bytes : List UInt8} {cs : List Char} (h : LossilyRead bytes cs) :
    (bytes = [] ∧ cs = []) ∨
    (∃ c rest more, bytes = String.utf8EncodeChar c ++ rest ∧ cs = c :: more ∧
      LossilyRead rest more) ∨
    (∃ first rest more, bytes = first ++ rest ∧ cs = replacementChar :: more ∧
      Broken first rest ∧ LossilyRead rest more) := by
  cases h with
  | nil => exact Or.inl ⟨rfl, rfl⟩
  | char hrest => exact Or.inr (Or.inl ⟨_, _, _, rfl, rfl, hrest⟩)
  | broken hbroken hrest => exact Or.inr (Or.inr ⟨_, _, _, rfl, rfl, hbroken, hrest⟩)

/-- A broken sequence goes no further than another one at the same place. -/
theorem Broken.not_longer {bytes rest more rest' : List UInt8} {b : UInt8} (h : Broken bytes rest)
    (h' : Broken (bytes ++ b :: more) rest') (hrest : rest.head? = some b) : False := by
  rcases h'.begins with hlength | ⟨c, hc⟩
  · have hpos := List.length_pos_iff.mpr h.ne_nil
    simp only [List.length_append, List.length_cons] at hlength
    omega
  · apply h.longest b hrest
    refine ⟨c, List.IsPrefix.trans ?_ hc⟩
    rw [List.prefix_append_right_inj, List.cons_prefix_cons]
    exact ⟨rfl, List.nil_prefix⟩

theorem Broken.eq_of_append_eq {bytes rest bytes' rest' : List UInt8} (h : Broken bytes rest)
    (h' : Broken bytes' rest') (heq : bytes ++ rest = bytes' ++ rest') :
    bytes = bytes' ∧ rest = rest' := by
  rcases List.append_eq_append_iff.mp heq with ⟨more, hbytes, hrest⟩ | ⟨more, hbytes, hrest⟩
  · cases more with
    | nil => simp_all
    | cons b more => exact (h.not_longer (hbytes ▸ h') (by rw [hrest]; rfl)).elim
  · cases more with
    | nil => simp_all
    | cons b more => exact (h'.not_longer (hbytes ▸ h) (by rw [hrest]; rfl)).elim

theorem eq_of_encoding_append_eq {c c' : Char} {rest rest' : List UInt8}
    (h : String.utf8EncodeChar c ++ rest = String.utf8EncodeChar c' ++ rest') :
    c = c' ∧ rest = rest' := by
  have hc : c = c' := by
    have hleft := List.prefix_append (String.utf8EncodeChar c) rest
    rw [h] at hleft
    rcases List.prefix_or_prefix_of_prefix hleft (List.prefix_append _ _) with hle | hle
    · exact eq_of_encoding_isPrefix_encoding hle
    · exact (eq_of_encoding_isPrefix_encoding hle).symm
  subst hc
  exact ⟨rfl, List.append_cancel_left h⟩

theorem LossilyRead.unique {bytes : List UInt8} {cs cs' : List Char} (h : LossilyRead bytes cs)
    (h' : LossilyRead bytes cs') : cs = cs' := by
  induction h generalizing cs' with
  | nil =>
    rcases h'.cases_append with ⟨-, rfl⟩ | ⟨c, rest, more, hbytes, -⟩ |
      ⟨first, rest, more, hbytes, -, hfirst, -⟩
    · rfl
    · simp [utf8EncodeChar_eq] at hbytes
    · exact (hfirst.ne_nil (List.append_eq_nil_iff.mp hbytes.symm).1).elim
  | @char c rest cs hrest ih =>
    rcases h'.cases_append with ⟨hbytes, -⟩ | ⟨c', rest', more, hbytes, rfl, hread⟩ |
      ⟨first, rest', more, hbytes, rfl, hfirst, hread⟩
    · simp [utf8EncodeChar_eq] at hbytes
    · obtain ⟨rfl, rfl⟩ := eq_of_encoding_append_eq hbytes
      rw [ih hread]
    · exact (hfirst.no_char c (hbytes ▸ List.prefix_append _ _)).elim
  | @broken bytes rest cs hbroken hrest ih =>
    rcases h'.cases_append with ⟨hbytes, -⟩ | ⟨c', rest', more, hbytes, rfl, hread⟩ |
      ⟨first, rest', more, hbytes, rfl, hfirst, hread⟩
    · exact (hbroken.ne_nil (List.append_eq_nil_iff.mp hbytes).1).elim
    · exact (hbroken.no_char c' (hbytes ▸ List.prefix_append _ _)).elim
    · obtain ⟨rfl, rfl⟩ := hbroken.eq_of_append_eq hfirst hbytes
      rw [ih hread]

theorem lossilyRead_iff (bytes : List UInt8) (text : String) :
    LossilyRead bytes text.toList ↔ decodeUtf8 bytes = text := by
  have hread : LossilyRead bytes (decodeUtf8 bytes).toList := by
    rw [decodeUtf8, String.toList_ofList]
    exact (lossilyRead_decodeFrom bytes).1
  constructor
  · intro h
    exact String.toList_injective (hread.unique h)
  · rintro rfl
    exact hread

end BatchCodec.Text
