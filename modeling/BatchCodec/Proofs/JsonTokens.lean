import BatchCodec.Json
/-!
The tokens of a JSON text.

A text is scanned one character at a time by a machine that is between two tokens, in a word, in a
string, behind a backslash or in the digits of an escaped code (`Scanner`). A word is a number or
one of the names; it ends at the first character that cannot belong to it, and only there does the
machine look at a character twice.

Main statement: the text of a document is scanned into the tokens of the document, whatever its
strings hold and however deeply it is indented (`scan_chars`), provided that its numbers are
numerals (`Plain`). It is stated with any text behind it that does not go on with a word, so that it
composes along lists and objects.
-/

namespace BatchCodec.Json

/-- A part of a text that means something. -/
inductive Token where
  | openList
  | closeList
  | openObject
  | closeObject
  | comma
  | colon
  | string (s : String)
  /-- A number or a name. -/
  | word (w : List Char)
  deriving DecidableEq, Repr

/-- Whether a character separates tokens and has no other meaning. -/
def isSpace (c : Char) : Bool := c == ' ' || c == '\n' || c == '\r' || c == '\t'

def isNumberChar (c : Char) : Bool :=
  c.isDigit || c == '-' || c == '+' || c == '.' || c == 'e' || c == 'E'

def isWordChar (c : Char) : Bool := c.isAlpha || isNumberChar c

/-- The token that a single character is. -/
def punctuation? (c : Char) : Option Token :=
  if c = '[' then some .openList
  else if c = ']' then some .closeList
  else if c = '\x7b' then some .openObject
  else if c = '\x7d' then some .closeObject
  else if c = ',' then some .comma
  else if c = ':' then some .colon
  else none

/-- The character that a letter behind a backslash stands for. -/
def unescaped? (c : Char) : Option Char :=
  if c = '\x22' then some '\x22'
  else if c = '\\' then some '\\'
  else if c = '/' then some '/'
  else if c = 'b' then some '\x08'
  else if c = 'f' then some '\x0c'
  else if c = 'n' then some '\n'
  else if c = 'r' then some '\r'
  else if c = 't' then some '\t'
  else none

def hexValue? (c : Char) : Option Nat :=
  if '0' ≤ c ∧ c ≤ '9' then some (c.toNat - 48)
  else if 'a' ≤ c ∧ c ≤ 'f' then some (c.toNat - 87)
  else if 'A' ≤ c ∧ c ≤ 'F' then some (c.toNat - 55)
  else none

/-- Where a scan stands. What was read of a token is kept with its last character first. -/
inductive Scanner where
  /-- Between two tokens. -/
  | between
  | word (seen : List Char)
  | string (seen : List Char)
  /-- In a string, behind a backslash. -/
  | escape (seen : List Char)
  /-- In a string, in the digits of an escaped code. -/
  | code (seen : List Char) (digits : List Nat)

namespace Scanner

def enter (c : Char) : Option (Scanner × List Token) :=
  if isWordChar c then some (word [c], [])
  else if c = '\x22' then some (string [], [])
  else if isSpace c then some (between, [])
  else (punctuation? c).map fun token => (between, [token])

/-- Takes a character in the digits of an escaped code. The fourth digit completes the code, which
has to be that of a character. -/
def takeDigit (seen : List Char) (digits : List Nat) (c : Char) : Option (Scanner × List Token) :=
  match hexValue? c, digits with
  | none, _ => none
  | some d, [x, y, z] =>
    let n := ((x * 16 + y) * 16 + z) * 16 + d
    if n.isValidChar then some (string (Char.ofNat n :: seen), []) else none
  | some d, digits => some (code seen (digits ++ [d]), [])

/-- Takes a character: where the scan stands then, and the tokens that ended. -/
def step : Scanner → Char → Option (Scanner × List Token)
  | between, c => enter c
  | word seen, c =>
    if isWordChar c then some (word (c :: seen), [])
    else (enter c).map fun (next, tokens) => (next, .word seen.reverse :: tokens)
  | string seen, c =>
    if c = '\x22' then some (between, [.string (String.ofList seen.reverse)])
    else if c = '\\' then some (escape seen, [])
    else if c.toNat < 0x20 then none
    else some (string (c :: seen), [])
  | escape seen, c =>
    if c = 'u' then some (code seen [], [])
    else (unescaped? c).map fun u => (string (u :: seen), [])
  | code seen digits, c => takeDigit seen digits c

def finish : Scanner → Option (List Token)
  | between => some []
  | word seen => some [.word seen.reverse]
  | _ => none

/-- The tokens of a text, from where a scan stands. -/
def scan : Scanner → List Char → Option (List Token)
  | s, [] => s.finish
  | s, c :: cs => (s.step c).bind fun (next, tokens) => (scan next cs).map (tokens ++ ·)

end Scanner

/-- Whether a text begins and goes on like a number. -/
def isNumeral (w : List Char) : Bool :=
  w.head?.any (fun c => c.isDigit || c == '-') && w.all isNumberChar

/-- A document whose numbers are numerals. -/
inductive Plain : Json → Prop
  | null : Plain .null
  | bool (b : Bool) : Plain (.bool b)
  | number {digits : String} (h : isNumeral digits.toList = true) : Plain (.number digits)
  | string (s : String) : Plain (.string s)
  | list {items : List Json} (h : ∀ item ∈ items, Plain item) : Plain (.list items)
  | object {members : List (String × Json)} (h : ∀ m ∈ members, Plain m.2) :
    Plain (.object members)

mutual

def tokens : Json → List Token
  | .null => [.word ['n', 'u', 'l', 'l']]
  | .bool true => [.word ['t', 'r', 'u', 'e']]
  | .bool false => [.word ['f', 'a', 'l', 's', 'e']]
  | .number digits => [.word digits.toList]
  | .string s => [.string s]
  | .list [] => [.openList, .closeList]
  | .list (item :: items) => .openList :: (tokens item ++ itemsTokens items ++ [.closeList])
  | .object [] => [.openObject, .closeObject]
  | .object ((key, value) :: members) =>
    .openObject :: .string key :: .colon ::
      (tokens value ++ membersTokens members ++ [.closeObject])

def itemsTokens : List Json → List Token
  | [] => []
  | item :: items => .comma :: (tokens item ++ itemsTokens items)

def membersTokens : List (String × Json) → List Token
  | [] => []
  | (key, value) :: members =>
    .comma :: .string key :: .colon :: (tokens value ++ membersTokens members)

end

/-! ## Single characters, strings and words -/

namespace Scanner

section Characters

variable {s next : Scanner} {c : Char} {rest : List Char} {later : List Token}

theorem scan_silent (h : s.step c = some (next, [])) (hrest : scan next rest = some later) :
    scan s (c :: rest) = some later := by
  rw [scan, h]
  exact congrArg (Option.map ([] ++ ·)) hrest

theorem scan_token {token : Token} (h : s.step c = some (next, [token]))
    (hrest : scan next rest = some later) : scan s (c :: rest) = some (token :: later) := by
  rw [scan, h]
  exact congrArg (Option.map ([token] ++ ·)) hrest

theorem scan_newline (depth : Nat) (hrest : scan between rest = some later) :
    scan between (newline depth ++ rest) = some later := by
  have hspaces : ∀ n, scan between (List.replicate n ' ' ++ rest) = some later := by
    intro n
    induction n with
    | zero => exact hrest
    | succ n ih => exact scan_silent rfl ih
  exact scan_silent rfl (hspaces (2 * depth))

end Characters

section Strings

variable {seen rest : List Char} {later : List Token}

theorem scan_unescaped {e u : Char} (he : e ≠ 'u') (h : unescaped? e = some u)
    (hrest : scan (string (u :: seen)) rest = some later) :
    scan (string seen) ('\\' :: e :: rest) = some later := by
  have hstep : step (escape seen) e = some (string (u :: seen), []) := by
    rw [step, if_neg he, h]
    rfl
  exact scan_silent rfl (scan_silent hstep hrest)

theorem hexValue?_hexDigit : ∀ n < 16, hexValue? (hexDigit n) = some n := by decide

/-- A control character is read back from its code. -/
theorem scan_code {c : Char} (hc : c.toNat < 0x20)
    (hrest : scan (string (c :: seen)) rest = some later) :
    scan (string seen) ('\\' :: 'u' :: '0' :: '0' :: hexDigit (c.toNat / 16) ::
      hexDigit (c.toNat % 16) :: rest) = some later := by
  have hvalue : ((0 * 16 + 0) * 16 + c.toNat / 16) * 16 + c.toNat % 16 = c.toNat := by omega
  have hthird : step (code seen [0, 0]) (hexDigit (c.toNat / 16)) =
      some (code seen [0, 0, c.toNat / 16], []) := by
    simp only [step, takeDigit, hexValue?_hexDigit (c.toNat / 16) (by omega)]
    rfl
  have hfourth : step (code seen [0, 0, c.toNat / 16]) (hexDigit (c.toNat % 16)) =
      some (string (c :: seen), []) := by
    simp only [step, takeDigit, hexValue?_hexDigit (c.toNat % 16) (by omega), hvalue,
      Char.ofNat_toNat]
    exact if_pos c.valid
  apply scan_silent rfl
  apply scan_silent rfl
  apply scan_silent rfl
  apply scan_silent rfl
  exact scan_silent hthird (scan_silent hfourth hrest)

/-- A character is written behind a backslash, by its code or as itself. -/
theorem escapeChar_cases (c : Char) :
    (∃ e, escapeChar c = ['\\', e] ∧ e ≠ 'u' ∧ unescaped? e = some c) ∨
    (c.toNat < 0x20 ∧ escapeChar c =
      ['\\', 'u', '0', '0', hexDigit (c.toNat / 16), hexDigit (c.toNat % 16)]) ∨
    (escapeChar c = [c] ∧ c ≠ '\x22' ∧ c ≠ '\\' ∧ ¬c.toNat < 0x20) := by
  by_cases hletter : c ∈ ['\x22', '\\', '\x08', '\x0c', '\n', '\r', '\t']
  · left
    simp only [List.mem_cons, List.not_mem_nil, or_false] at hletter
    rcases hletter with rfl | rfl | rfl | rfl | rfl | rfl | rfl
    all_goals exact ⟨_, rfl, by decide, rfl⟩
  · right
    simp only [List.mem_cons, List.not_mem_nil, or_false, not_or] at hletter
    obtain ⟨hquote, hbackslash, hb, hf, hn, hr, ht⟩ := hletter
    simp only [escapeChar, beq_iff_eq, hquote, hbackslash, hb, hf, hn, hr, ht, if_false]
    by_cases hcontrol : c.toNat < 0x20
    · exact .inl ⟨hcontrol, if_pos hcontrol⟩
    · exact .inr ⟨if_neg hcontrol, hquote, hbackslash, hcontrol⟩

/-- Every character of a string is read back from the way it is written. -/
theorem scan_escapeChar (c : Char) (hrest : scan (string (c :: seen)) rest = some later) :
    scan (string seen) (escapeChar c ++ rest) = some later := by
  obtain ⟨e, hchars, he, hu⟩ | ⟨hcontrol, hchars⟩ | ⟨hchars, hquote, hbackslash, hcontrol⟩ :=
    escapeChar_cases c
  · rw [hchars]
    exact scan_unescaped he hu hrest
  · rw [hchars]
    exact scan_code hcontrol hrest
  · rw [hchars]
    refine scan_silent ?_ hrest
    rw [step, if_neg hquote, if_neg hbackslash, if_neg hcontrol]

theorem scan_escaped (cs : List Char)
    (hrest : scan (string (cs.reverse ++ seen)) rest = some later) :
    scan (string seen) (cs.flatMap escapeChar ++ rest) = some later := by
  -- what was seen of the string grows by one character for each that was written
  induction cs generalizing seen with
  | nil => exact hrest
  | cons c cs ih =>
    rw [List.flatMap_cons, List.append_assoc]
    apply scan_escapeChar
    apply ih
    rwa [List.reverse_cons, List.append_assoc] at hrest

theorem scan_string (s : String) (hrest : scan between rest = some later) :
    scan between (stringChars s ++ rest) = some (.string s :: later) := by
  unfold stringChars
  rw [List.cons_append, List.append_assoc]
  apply scan_silent rfl
  apply scan_escaped
  have hstep : step (string (s.toList.reverse ++ [])) '\x22' = some (between, [.string s]) := by
    rw [step, if_pos rfl, List.append_nil, List.reverse_reverse, String.ofList_toList]
  exact scan_token hstep hrest

end Strings

/-- A text that does not go on with a word. -/
def Delimited : List Char → Prop
  | [] => True
  | c :: _ => isWordChar c = false

section Words

variable {rest : List Char} {later : List Token}

theorem scan_word_end {seen : List Char} (hd : Delimited rest)
    (hrest : scan between rest = some later) :
    scan (word seen) rest = some (.word seen.reverse :: later) := by
  cases rest with
  | nil =>
    cases hrest
    rfl
  | cons c rest =>
    -- the character that ends the word is taken as between two tokens
    have hc : isWordChar c = false := hd
    rw [scan, step] at hrest
    rw [scan, step, hc]
    cases henter : enter c with
    | none =>
      rw [henter] at hrest
      cases hrest
    | some found =>
      rw [henter] at hrest
      obtain ⟨tokens, htokens, rfl⟩ := Option.map_eq_some_iff.mp hrest
      simp [htokens]

/-- A word is read up to the first character that cannot belong to it. -/
theorem scan_word {w seen : List Char} (hw : w.all isWordChar = true) (hd : Delimited rest)
    (hrest : scan between rest = some later) :
    scan (word seen) (w ++ rest) = some (.word (seen.reverse ++ w) :: later) := by
  induction w generalizing seen with
  | nil =>
    rw [List.append_nil]
    exact scan_word_end hd hrest
  | cons c w ih =>
    rw [List.all_cons, Bool.and_eq_true] at hw
    have hstep : step (word seen) c = some (word (c :: seen), []) := by
      rw [step, if_pos hw.1]
    have hlater : scan (word (c :: seen)) (w ++ rest) =
        some (.word ((c :: seen).reverse ++ w) :: later) := ih hw.2
    rw [List.reverse_cons, List.append_assoc] at hlater
    exact scan_silent hstep hlater

theorem scan_between_word {w : List Char} (hne : w ≠ []) (hw : w.all isWordChar = true)
    (hd : Delimited rest) (hrest : scan between rest = some later) :
    scan between (w ++ rest) = some (.word w :: later) := by
  obtain ⟨c, w, rfl⟩ := List.exists_cons_of_ne_nil hne
  rw [List.all_cons, Bool.and_eq_true] at hw
  have hstep : step between c = some (word [c], []) := by
    rw [step, enter, if_pos hw.1]
  exact scan_silent hstep (scan_word hw.2 hd hrest)

end Words

/-! ## Documents -/

/-- A key on a line of its own, and what follows its colon. -/
theorem scan_member (depth : Nat) (key : String) {text : List Char} {later : List Token}
    (h : scan between text = some later) :
    scan between (newline depth ++ (stringChars key ++ (':' :: ' ' :: text))) =
      some (.string key :: .colon :: later) := by
  apply scan_newline
  apply scan_string
  apply scan_token rfl
  exact scan_silent rfl h

/-- The text of a document is scanned into its tokens, at any depth and before any text that does
not go on with a word. -/
def Scans (j : Json) : Prop :=
  ∀ (depth : Nat) (rest : List Char) (later : List Token), Delimited rest →
    scan between rest = some later →
      scan between (chars depth j ++ rest) = some (tokens j ++ later)

theorem delimited_newline (depth : Nat) (rest : List Char) : Delimited (newline depth ++ rest) :=
  rfl

theorem delimited_itemsChars (depth : Nat) (items : List Json) {rest : List Char}
    (h : Delimited rest) : Delimited (itemsChars depth items ++ rest) := by
  cases items with
  | nil => rwa [itemsChars]
  | cons item items =>
    rw [itemsChars]
    rfl

theorem delimited_membersChars (depth : Nat) (members : List (String × Json)) {rest : List Char}
    (h : Delimited rest) : Delimited (membersChars depth members ++ rest) := by
  cases members with
  | nil => rwa [membersChars]
  | cons m members =>
    rw [membersChars]
    rfl

theorem scan_itemsChars {items : List Json} (h : ∀ item ∈ items, Scans item) (depth : Nat)
    {rest : List Char} {later : List Token} (hd : Delimited rest)
    (hrest : scan between rest = some later) :
    scan between (itemsChars depth items ++ rest) = some (itemsTokens items ++ later) := by
  induction items with
  | nil =>
    rw [itemsChars, itemsTokens]
    exact hrest
  | cons item items ih =>
    have hitems := ih fun x hx => h x (List.mem_cons_of_mem item hx)
    have hitem := h item List.mem_cons_self depth _ _ (delimited_itemsChars depth items hd) hitems
    rw [itemsChars, itemsTokens]
    simp only [List.cons_append, List.append_assoc]
    exact scan_token rfl (scan_newline depth hitem)

theorem scan_membersChars {members : List (String × Json)} (h : ∀ m ∈ members, Scans m.2)
    (depth : Nat) {rest : List Char} {later : List Token} (hd : Delimited rest)
    (hrest : scan between rest = some later) :
    scan between (membersChars depth members ++ rest) =
      some (membersTokens members ++ later) := by
  induction members with
  | nil =>
    rw [membersChars, membersTokens]
    exact hrest
  | cons m members ih =>
    have hmembers := ih fun x hx => h x (List.mem_cons_of_mem m hx)
    have hvalue :=
      h m List.mem_cons_self depth _ _ (delimited_membersChars depth members hd) hmembers
    rw [membersChars, membersTokens]
    simp only [List.cons_append, List.append_assoc, List.nil_append]
    exact scan_token rfl (scan_member depth m.1 hvalue)

theorem word_of_isNumeral {w : List Char} (h : isNumeral w = true) :
    w ≠ [] ∧ w.all isWordChar = true := by
  rw [isNumeral, Bool.and_eq_true, List.all_eq_true] at h
  refine ⟨?_, List.all_eq_true.mpr ?_⟩
  · rintro rfl
    cases h.1
  · intro c hc
    rw [isWordChar, h.2 c hc, Bool.or_true]

/-- **The text of a document is scanned into its tokens.** -/
theorem scan_chars {j : Json} (h : j.Plain) : Scans j := by
  induction h with
  | null =>
    intro depth rest later hd hrest
    rw [chars, tokens]
    exact scan_between_word (by decide) (by decide) hd hrest
  | bool b =>
    intro depth rest later hd hrest
    cases b with
    | true =>
      rw [chars, tokens]
      exact scan_between_word (by decide) (by decide) hd hrest
    | false =>
      rw [chars, tokens]
      exact scan_between_word (by decide) (by decide) hd hrest
  | number hdigits =>
    intro depth rest later hd hrest
    obtain ⟨hne, hw⟩ := word_of_isNumeral hdigits
    rw [chars, tokens]
    exact scan_between_word hne hw hd hrest
  | string s =>
    intro depth rest later hd hrest
    rw [chars, tokens]
    exact scan_string s hrest
  | @list items _ ih =>
    intro depth rest later hd hrest
    -- behind the items stands a new line with the closing bracket
    have hclose : scan between (newline depth ++ (']' :: rest)) = some (.closeList :: later) :=
      scan_newline depth (scan_token rfl hrest)
    cases items with
    | nil =>
      rw [chars, tokens]
      exact scan_token rfl (scan_token rfl hrest)
    | cons item items =>
      have hitems := scan_itemsChars (fun x hx => ih x (List.mem_cons_of_mem item hx)) (depth + 1)
        (delimited_newline depth _) hclose
      have hitem := ih item List.mem_cons_self (depth + 1) _ _
        (delimited_itemsChars (depth + 1) items (delimited_newline depth _)) hitems
      rw [chars, tokens]
      simp only [List.cons_append, List.append_assoc, List.nil_append]
      exact scan_token rfl (scan_newline (depth + 1) hitem)
  | @object members _ ih =>
    intro depth rest later hd hrest
    have hclose : scan between (newline depth ++ ('\x7d' :: rest)) =
        some (.closeObject :: later) :=
      scan_newline depth (scan_token rfl hrest)
    cases members with
    | nil =>
      rw [chars, tokens]
      exact scan_token rfl (scan_token rfl hrest)
    | cons m members =>
      have hmembers := scan_membersChars (fun x hx => ih x (List.mem_cons_of_mem m hx))
        (depth + 1) (delimited_newline depth _) hclose
      have hvalue := ih m List.mem_cons_self (depth + 1) _ _
        (delimited_membersChars (depth + 1) members (delimited_newline depth _)) hmembers
      rw [chars, tokens]
      simp only [List.cons_append, List.append_assoc, List.nil_append]
      exact scan_token rfl (scan_member (depth + 1) m.1 hvalue)

end Scanner

end BatchCodec.Json
