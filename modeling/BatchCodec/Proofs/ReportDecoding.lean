import BatchCodec.Proofs.JsonReading
import BatchCodec.Report.Document
/-!
The JSON report read back.

The document of a report is decoded field by field (`Report.ofDocument?`), each item by its status,
which alone decides which of the other keys it has. Together with the reading of texts this gives
the report back from its JSON text, whatever its paths and texts hold and whenever the batch was run
(`json_report_loses_nothing`). The only numbers of the document are the three counts and the
duration, so what is asked of numbers is shown for these (`plain_ofNat`, `plain_elapsed`).
-/

namespace BatchCodec

namespace Json

def get? (key : String) : Json → Option Json
  | .object members => members.lookup key
  | _ => none

def string? : Json → Option String
  | .string s => some s
  | _ => none

def nat? : Json → Option Nat
  | .number digits =>
    if digits.toList.all Char.isDigit then some (Nat.ofDigitChars 10 digits.toList 0) else none
  | _ => none

def list? : Json → Option (List Json)
  | .list items => some items
  | _ => none

def text? (key : String) (j : Json) : Option String := (j.get? key).bind string?

/-- What is read from each item of the list that is the value of a key. -/
def each? {α : Type} (key : String) (read : Json → Option α) (j : Json) : Option (List α) :=
  ((j.get? key).bind list?).bind (List.mapM read)

end Json

def Path.ofDocument? (j : Json) : Option Path := j.string?.map Path.mk

def Direction.ofName? (name : String) : Option Direction :=
  [Direction.compile, Direction.decompile].find? fun d => d.name == name

/-- The outcome with a status, its text read from the other keys. -/
def Outcome.ofDocument? (status : String) (j : Json) : Option Outcome :=
  if status = "converted" then some .converted
  else if status = "failed" then (j.text? "summary").map .failed
  else if status = "unexpected" then (j.text? "detail").map .unexpected
  else none

def Item.ofDocument? (j : Json) : Option Item := do
  let input ← j.text? "input"
  let status ← j.text? "status"
  let outcome ← Outcome.ofDocument? status j
  return ⟨⟨input⟩, outcome⟩

namespace Report

def ofDocument? (j : Json) : Option Report := do
  let direction ← (j.text? "direction").bind Direction.ofName?
  let outputDir ← j.text? "output_dir"
  let items ← j.each? "items" Item.ofDocument?
  let skipped ← j.each? "skipped" Path.ofDocument?
  let entries ← j.each? "entries" Json.string?
  return ⟨direction, ⟨outputDir⟩, items, skipped, entries⟩

def ofJson? (text : String) : Option Report := (Json.read? text).bind ofDocument?

end Report

/-! ## Numbers -/

namespace Json

theorem isNumberChar_of_isDigit {c : Char} (h : c.isDigit = true) : isNumberChar c = true := by
  simp [isNumberChar, h]

theorem isNumeral_cons {c : Char} {cs : List Char} (hc : c.isDigit = true)
    (hcs : ∀ x ∈ cs, isNumberChar x = true) : isNumeral (c :: cs) = true := by
  simp only [isNumeral, List.head?_cons, Option.any_some, hc, Bool.true_or, Bool.true_and,
    List.all_cons, isNumberChar_of_isDigit hc, List.all_eq_true]
  exact hcs

theorem isNumeral_minus {w : List Char} (h : isNumeral w = true) : isNumeral ('-' :: w) = true := by
  rw [isNumeral, Bool.and_eq_true] at h
  simp only [isNumeral, List.head?_cons, Option.any_some, List.all_cons, h.2]
  decide

/-- The digits of a number: at least one, and nothing else. -/
theorem exists_toDigits (n : Nat) :
    ∃ c cs, Nat.toDigits 10 n = c :: cs ∧ c.isDigit = true ∧ ∀ x ∈ cs, x.isDigit = true := by
  have hdigit : ∀ c ∈ Nat.toDigits 10 n, c.isDigit = true := fun c hc =>
    Nat.isDigit_of_mem_toDigits (by decide) (by decide) hc
  obtain ⟨c, cs, hcs⟩ := List.exists_cons_of_length_pos (Nat.length_toDigits_pos (b := 10) (n := n))
  rw [hcs] at hdigit
  exact ⟨c, cs, hcs, hdigit c List.mem_cons_self, fun x hx => hdigit x (List.mem_cons_of_mem c hx)⟩

theorem toList_toString (n : Nat) : (toString n).toList = Nat.toDigits 10 n := by
  show (Nat.repr n).toList = _
  rw [Nat.repr_eq_ofList_toDigits, String.toList_ofList]

theorem plain_ofNat (n : Nat) : (ofNat n).Plain := by
  obtain ⟨c, cs, hdigits, hc, hcs⟩ := exists_toDigits n
  refine .number ?_
  rw [toList_toString, hdigits]
  exact isNumeral_cons hc fun x hx => isNumberChar_of_isDigit (hcs x hx)

theorem nat?_ofNat (n : Nat) : (ofNat n).nat? = some n := by
  have hall : (Nat.toDigits 10 n).all Char.isDigit = true :=
    List.all_eq_true.mpr fun c hc => Nat.isDigit_of_mem_toDigits (by decide) (by decide) hc
  rw [ofNat, nat?, toList_toString, hall, Nat.ofDigitChars_toDigits (by decide) (by decide)]
  rfl

end Json

namespace Timing

open Json

theorem isNumberChar_of_mem_zeros {n : Nat} : ∀ c ∈ zeros n, isNumberChar c = true := by
  intro c hc
  rw [List.eq_of_mem_replicate hc]
  decide

section Digits

variable {c : Char} {cs : List Char}

/-- Digits with a decimal point in or beside them are a number. -/
theorem isNumeral_positional (hc : c.isDigit = true) (hcs : ∀ x ∈ cs, isNumberChar x = true)
    (point : Int) : isNumeral (positional (c :: cs) point) = true := by
  unfold positional
  split
  · simp only [List.cons_append, List.nil_append]
    apply isNumeral_cons (by decide)
    simp only [List.forall_mem_cons, List.forall_mem_append]
    exact ⟨by decide, isNumberChar_of_mem_zeros, isNumberChar_of_isDigit hc, hcs⟩
  · split
    · simp only [List.cons_append]
      apply isNumeral_cons hc
      simp only [List.forall_mem_append]
      exact ⟨⟨hcs, isNumberChar_of_mem_zeros⟩, List.all_eq_true.mp rfl⟩
    · -- the point stands behind the first digit or later
      obtain ⟨n, hn⟩ : ∃ n, point.toNat = n + 1 := ⟨point.toNat - 1, by omega⟩
      rw [hn, List.take_succ_cons, List.drop_succ_cons, List.cons_append]
      apply isNumeral_cons hc
      simp only [List.forall_mem_append, List.forall_mem_cons]
      exact ⟨fun x hx => hcs x (List.mem_of_mem_take hx), by decide,
        fun x hx => hcs x (List.mem_of_mem_drop hx)⟩

theorem isNumeral_scientific (hc : c.isDigit = true) (hcs : ∀ x ∈ cs, isNumberChar x = true)
    (exponent : Int) : isNumeral (scientific (c :: cs) exponent) = true := by
  have hexponent : ∀ x ∈ 'e' :: (if exponent < 0 then '-' else '+') ::
      Nat.toDigits 10 exponent.natAbs, isNumberChar x = true := by
    simp only [List.forall_mem_cons]
    refine ⟨by decide, ?_, ?_⟩
    · split <;> decide
    · intro x hx
      exact isNumberChar_of_isDigit (Nat.isDigit_of_mem_toDigits (by decide) (by decide) hx)
  unfold scientific
  cases cs with
  | nil => exact isNumeral_cons hc hexponent
  | cons d ds =>
    dsimp only
    rw [List.cons_append]
    apply isNumeral_cons hc
    rw [List.forall_mem_append, List.forall_mem_cons]
    exact ⟨⟨by decide, hcs⟩, hexponent⟩

end Digits

theorem isNumeral_layout (d : Decimal.Scientific) : isNumeral (layout d) = true := by
  obtain ⟨c, cs, hdigits, hc, hcs⟩ := exists_toDigits d.digits
  have hnumber : ∀ x ∈ cs, isNumberChar x = true := fun x hx => isNumberChar_of_isDigit (hcs x hx)
  unfold layout
  dsimp only
  rw [hdigits]
  split
  · decide
  · split
    · exact isNumeral_positional hc hnumber _
    · exact isNumeral_scientific hc hnumber _

/-- The duration is a number or missing. -/
theorem plain_elapsed (t : Timing) : ((t.elapsedNumber?.map Json.number).getD .null).Plain := by
  unfold elapsedNumber?
  split
  · exact .null
  · exact .null
  · rename_i negative m q _
    refine .number ?_
    rw [String.toList_ofList]
    cases negative with
    | true => exact isNumeral_minus (isNumeral_layout _)
    | false => exact isNumeral_layout _

end Timing

/-! ## Documents -/

theorem Item.plain_document (item : Item) : item.document.Plain := by
  unfold document
  split
  all_goals
    apply Json.Plain.object
    simp [Json.Plain.string]

theorem Report.plain_document (r : Report) (t : Timing) : (r.document t).Plain := by
  have hlist : ∀ {α : Type} (l : List α) (f : α → Json), (∀ a, (f a).Plain) →
      (Json.list (l.map f)).Plain := by
    intro α l f hf
    refine .list ?_
    rw [List.forall_mem_map]
    exact fun a _ => hf a
  apply Json.Plain.object
  simp only [List.forall_mem_cons, List.not_mem_nil, false_implies, implies_true, and_true]
  exact ⟨Json.plain_ofNat _, .string _, t.plain_elapsed, hlist _ _ Json.Plain.string,
    Json.plain_ofNat _, hlist _ _ Item.plain_document, .string _, hlist _ _ fun p => .string p.text,
    .string _, Json.plain_ofNat _⟩

theorem Direction.ofName?_name (d : Direction) : ofName? d.name = some d := by
  cases d <;> rfl

theorem Item.ofDocument?_document (item : Item) : ofDocument? item.document = some item := by
  obtain ⟨input, outcome⟩ := item
  -- each status has its own keys beside the input
  cases outcome with
  | converted => rfl
  | failed summary => rfl
  | unexpected detail => rfl

theorem mapM_map_eq_some {α β : Type} (write : α → β) (read : β → Option α)
    (h : ∀ a, read (write a) = some a) (l : List α) : (l.map write).mapM read = some l := by
  induction l with
  | nil => rfl
  | cons a l ih =>
    rw [List.map_cons, List.mapM_cons, h, ih]
    rfl

namespace Report

theorem ofDocument?_document (r : Report) (t : Timing) : ofDocument? (r.document t) = some r := by
  have hdirection : ((r.document t).text? "direction").bind Direction.ofName? = some r.direction :=
    Direction.ofName?_name r.direction
  have houtput : (r.document t).text? "output_dir" = some r.outputDir.text := rfl
  have hitems : (r.document t).each? "items" Item.ofDocument? = some r.items :=
    mapM_map_eq_some Item.document Item.ofDocument? Item.ofDocument?_document r.items
  have hskipped : (r.document t).each? "skipped" Path.ofDocument? = some r.skipped :=
    mapM_map_eq_some (fun path : Path => Json.string path.text) Path.ofDocument? (fun _ => rfl)
      r.skipped
  have hentries : (r.document t).each? "entries" Json.string? = some r.entries :=
    mapM_map_eq_some Json.string Json.string? (fun _ => rfl) r.entries
  rw [ofDocument?, hdirection, houtput, hitems, hskipped, hentries]
  rfl

/-- The report is decoded from its JSON text. -/
theorem ofJson?_json (r : Report) (t : Timing) : ofJson? (r.json t) = some r := by
  rw [ofJson?, json, Json.read?_pretty (r.plain_document t), Option.bind_some,
    ofDocument?_document]

/-- Every item has one of the three outcomes. -/
theorem converted_add_failed_add_unexpected (r : Report) :
    r.converted + r.failed + r.unexpected = r.items.length := by
  have hone : ∀ o : Outcome, (if o.isConverted then 1 else 0) + (if o.isFailed then 1 else 0) +
      (if o.isUnexpected then 1 else 0) = 1 := by
    intro o
    cases o <;> rfl
  unfold converted failed unexpected count
  induction r.items with
  | nil => rfl
  | cons item items ih =>
    have hitem := hone item.outcome
    simp only [List.countP_cons, List.length_cons]
    omega

end Report

def countStatus (status : String) (items : List Json) : Nat :=
  items.countP fun item => item.text? "status" == some status

/-- The items with a status are those whose outcome has it. -/
theorem countStatus_document {status : String} {p : Outcome → Bool} (r : Report)
    (h : ∀ item : Item, (item.document.text? "status" == some status) = p item.outcome) :
    countStatus status (r.items.map Item.document) = r.count p := by
  rw [countStatus, List.countP_map, Report.count]
  exact List.countP_congr fun item _ => by rw [Function.comp_apply, h]

/-- **The JSON report loses nothing.** The report is decoded from its JSON text, so reports with
equal texts are equal, however they were timed. In the document that the text is read as, the three
counts are the numbers of the items with that status, and their sum is the number of items. -/
theorem json_report_loses_nothing (r : Report) (t : Timing) :
    Report.ofJson? (r.json t) = some r ∧
    (∀ (r' : Report) (t' : Timing), r'.json t' = r.json t → r' = r) ∧
    ∃ document items, Json.read? (r.json t) = some document ∧
      (document.get? "items").bind Json.list? = some items ∧
      items.length = r.items.length ∧
      (document.get? "converted").bind Json.nat? = some (countStatus "converted" items) ∧
      (document.get? "failed").bind Json.nat? = some (countStatus "failed" items) ∧
      (document.get? "unexpected").bind Json.nat? = some (countStatus "unexpected" items) ∧
      countStatus "converted" items + countStatus "failed" items +
        countStatus "unexpected" items = items.length := by
  have hconverted : countStatus "converted" (r.items.map Item.document) = r.converted :=
    countStatus_document r fun ⟨_, outcome⟩ => by cases outcome <;> rfl
  have hfailed : countStatus "failed" (r.items.map Item.document) = r.failed :=
    countStatus_document r fun ⟨_, outcome⟩ => by cases outcome <;> rfl
  have hunexpected : countStatus "unexpected" (r.items.map Item.document) = r.unexpected :=
    countStatus_document r fun ⟨_, outcome⟩ => by cases outcome <;> rfl
  refine ⟨r.ofJson?_json t, ?_, r.document t, r.items.map Item.document,
    Json.read?_pretty (r.plain_document t), rfl, List.length_map _, ?_, ?_, ?_, ?_⟩
  · intro r' t' h
    have hr' := r'.ofJson?_json t'
    rw [h, r.ofJson?_json t] at hr'
    exact (Option.some.inj hr').symm
  · rw [hconverted]
    simp [Report.document, Json.get?, Json.nat?_ofNat]
  · rw [hfailed]
    simp [Report.document, Json.get?, List.lookup_cons, Json.nat?_ofNat]
  · rw [hunexpected]
    simp [Report.document, Json.get?, List.lookup_cons, Json.nat?_ofNat]
  · rw [hconverted, hfailed, hunexpected, List.length_map]
    exact r.converted_add_failed_add_unexpected

end BatchCodec
