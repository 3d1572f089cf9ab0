import BatchCodec.Proofs.JsonTokens
/-!
Reading JSON documents.

Tokens are read by a machine with a stack: each open list or object is a frame that holds what was
read of it so far (`Frame`), and what may come next is the state (`Reader`). Reading a text is
scanning it and running the machine over the tokens; both take one thing after the other, so there
is no bound on depth or length.

Main statement: a document is read back from its text (`read?_pretty`). The machine takes the tokens
of a document, in whatever it stands in, to the state in which that document was read
(`run_tokens`).
-/

namespace BatchCodec.Json

/-- A list or an object of which the end has not been read. What was read of it is kept with the
last part first. -/
inductive Frame where
  | items (before : List Json)
  /-- An object in which the value of a key comes next or was just read. -/
  | member (before : List (String × Json)) (key : String)

/-- What may come next, and where. -/
inductive Reader where
  /-- A document. -/
  | value (frames : List Frame)
  /-- The first item of a list, or its end. -/
  | firstItem (frames : List Frame)
  /-- The first key of an object, or its end. -/
  | firstKey (frames : List Frame)
  /-- A key. -/
  | key (before : List (String × Json)) (frames : List Frame)
  /-- The colon behind a key. -/
  | colon (before : List (String × Json)) (key : String) (frames : List Frame)
  /-- What follows a document. -/
  | done (j : Json) (frames : List Frame)

def ofWord? (w : List Char) : Option Json :=
  if w = ['n', 'u', 'l', 'l'] then some .null
  else if w = ['t', 'r', 'u', 'e'] then some (.bool true)
  else if w = ['f', 'a', 'l', 's', 'e'] then some (.bool false)
  else if isNumeral w then some (.number (String.ofList w))
  else none

namespace Reader

def start (frames : List Frame) : Token → Option Reader
  | .openList => some (firstItem frames)
  | .openObject => some (firstKey frames)
  | .string s => some (done (.string s) frames)
  | .word w => (ofWord? w).map (done · frames)
  | _ => none

def close (j : Json) : List Frame → Token → Option Reader
  | .items before :: frames, .comma => some (value (.items (j :: before) :: frames))
  | .items before :: frames, .closeList => some (done (.list (j :: before).reverse) frames)
  | .member before k :: frames, .comma => some (key ((k, j) :: before) frames)
  | .member before k :: frames, .closeObject =>
    some (done (.object ((k, j) :: before).reverse) frames)
  | _, _ => none

def step : Reader → Token → Option Reader
  | value frames, token => start frames token
  | firstItem frames, .closeList => some (done (.list []) frames)
  | firstItem frames, token => start (.items [] :: frames) token
  | firstKey frames, .closeObject => some (done (.object []) frames)
  | firstKey frames, .string k => some (colon [] k frames)
  | key before frames, .string k => some (colon before k frames)
  | colon before k frames, .colon => some (value (.member before k :: frames))
  | done j frames, token => close j frames token
  | _, _ => none

def run : Reader → List Token → Option Reader
  | r, [] => some r
  | r, token :: tokens => (r.step token).bind fun next => next.run tokens

/-- The document that was read, if it stands in nothing. -/
def result? : Reader → Option Json
  | done j [] => some j
  | _ => none

end Reader

def read? (text : String) : Option Json :=
  (Scanner.between.scan text.toList).bind fun tokens =>
    ((Reader.value []).run tokens).bind Reader.result?

namespace Reader

theorem run_cons {r next : Reader} {token : Token} (h : r.step token = some next)
    (tokens : List Token) : r.run (token :: tokens) = next.run tokens := by
  rw [run, h, Option.bind_some]

/-- The tokens of a document are read as the document, whatever it stands in. -/
def Reads (j : Json) : Prop :=
  ∀ (frames : List Frame) (rest : List Token),
    (value frames).run (tokens j ++ rest) = (done j frames).run rest

/-- No document begins with the end of a list, so the first item is read like every other. -/
theorem run_firstItem (j : Json) (frames : List Frame) (rest : List Token) :
    (firstItem frames).run (tokens j ++ rest) =
      (value (.items [] :: frames)).run (tokens j ++ rest) := by
  cases j with
  | null => rw [tokens]; rfl
  | bool b => cases b <;> rw [tokens] <;> rfl
  | number digits => rw [tokens]; rfl
  | string s => rw [tokens]; rfl
  | list items => cases items <;> rw [tokens] <;> rfl
  | object members => cases members <;> rw [tokens] <;> rfl

theorem run_itemsTokens {items : List Json} (h : ∀ item ∈ items, Reads item) (j : Json)
    (before : List Json) (frames : List Frame) (rest : List Token) :
    (done j (.items before :: frames)).run (itemsTokens items ++ .closeList :: rest) =
      (done (.list ((j :: before).reverse ++ items)) frames).run rest := by
  -- the item just read joins the frame at the comma
  induction items generalizing j before with
  | nil =>
    rw [itemsTokens, List.append_nil]
    exact run_cons rfl rest
  | cons item items ih =>
    have hlater := ih (fun x hx => h x (List.mem_cons_of_mem item hx)) item (j :: before)
    rw [List.reverse_cons, List.append_assoc] at hlater
    rw [itemsTokens, List.cons_append, List.append_assoc, run_cons rfl,
      h item List.mem_cons_self]
    exact hlater

theorem run_membersTokens {members : List (String × Json)} (h : ∀ m ∈ members, Reads m.2)
    (j : Json) (before : List (String × Json)) (k : String) (frames : List Frame)
    (rest : List Token) :
    (done j (.member before k :: frames)).run (membersTokens members ++ .closeObject :: rest) =
      (done (.object (((k, j) :: before).reverse ++ members)) frames).run rest := by
  induction members generalizing j before k with
  | nil =>
    rw [membersTokens, List.append_nil]
    exact run_cons rfl rest
  | cons m members ih =>
    have hlater := ih (fun x hx => h x (List.mem_cons_of_mem m hx)) m.2 ((k, j) :: before) m.1
    rw [List.reverse_cons, List.append_assoc] at hlater
    rw [membersTokens, List.cons_append, run_cons rfl, List.cons_append, run_cons rfl,
      List.cons_append, run_cons rfl, List.append_assoc, h m List.mem_cons_self]
    exact hlater

theorem ofWord?_of_isNumeral {w : List Char} (h : isNumeral w = true) :
    ofWord? w = some (.number (String.ofList w)) := by
  -- none of the names is a numeral
  have hname : ∀ name, isNumeral name = false → w ≠ name := by
    intro name hno heq
    rw [heq, hno] at h
    cases h
  rw [ofWord?, if_neg (hname _ rfl), if_neg (hname _ rfl), if_neg (hname _ rfl), if_pos h]

/-- **The tokens of a document are read as the document.** -/
theorem run_tokens {j : Json} (h : j.Plain) : Reads j := by
  induction h with
  | null =>
    intro frames rest
    rw [tokens]
    exact run_cons rfl rest
  | bool b =>
    intro frames rest
    cases b with
    | true =>
      rw [tokens]
      exact run_cons rfl rest
    | false =>
      rw [tokens]
      exact run_cons rfl rest
  | number hdigits =>
    intro frames rest
    rw [tokens]
    refine run_cons ?_ rest
    rw [step, start, ofWord?_of_isNumeral hdigits, String.ofList_toList]
    rfl
  | string s =>
    intro frames rest
    rw [tokens]
    exact run_cons rfl rest
  | @list items _ ih =>
    intro frames rest
    cases items with
    | nil =>
      rw [tokens]
      rfl
    | cons item items =>
      rw [tokens]
      simp only [List.cons_append, List.append_assoc, List.nil_append]
      rw [run_cons rfl, run_firstItem, ih item List.mem_cons_self]
      exact run_itemsTokens (fun x hx => ih x (List.mem_cons_of_mem item hx)) item [] frames rest
  | @object members _ ih =>
    intro frames rest
    cases members with
    | nil =>
      rw [tokens]
      rfl
    | cons m members =>
      rw [tokens]
      simp only [List.cons_append, List.append_assoc, List.nil_append]
      rw [run_cons rfl, run_cons rfl, run_cons rfl, ih m List.mem_cons_self]
      exact run_membersTokens (fun x hx => ih x (List.mem_cons_of_mem m hx)) m.2 [] m.1 frames rest

end Reader

/-- A document is read back from its text. -/
theorem read?_pretty {j : Json} (h : j.Plain) : read? j.pretty = some j := by
  have hscan : Scanner.between.scan (chars 0 j) = some (tokens j) := by
    have htext := Scanner.scan_chars h 0 [] [] trivial rfl
    rwa [List.append_nil, List.append_nil] at htext
  have hrun : (Reader.value []).run (tokens j) = some (.done j []) := by
    have htokens := Reader.run_tokens h [] []
    rwa [List.append_nil] at htokens
  rw [read?, pretty, String.toList_ofList, hscan, Option.bind_some, hrun]
  rfl

-- a comma is followed by an item
example : (read? "[1, ]").isNone = true := by decide

end BatchCodec.Json
