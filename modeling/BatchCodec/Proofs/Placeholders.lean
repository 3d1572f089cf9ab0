import BatchCodec.Codec.Template
/-!
Placeholders filled in at once, and one after the other.

A template is read from left to right into slots (`Slot.read`); putting the two paths into the slots
fills it in at once (`filledAtOnce`). Arguments are made in another way: the input path is filled in
first, and what comes out is searched for the placeholder of the output. The first step leaves the
output placeholders of the template alone (`Slot.replaceFrom_input`), so the second one finds all of
them (`Slot.count_output_le`), and more if the input path contains the placeholder or completes it.

A placeholder has its opening brace at the beginning only, so two placeholders never overlap and their
occurrences add up (`Text.occurrencesIn_append_needle`).

Main statement: `arguments_filled_at_once_iff_no_placeholder_arises`.
-/

namespace BatchCodec

namespace Text

/-- How many times `needle` stands in the characters. -/
def occurrencesIn (needle : List Char) : List Char → Nat
  | [] => 0
  | c :: rest => (if needle.isPrefixOf (c :: rest) then 1 else 0) + occurrencesIn needle rest

/-- How many times a non-empty `needle` stands in `s`. -/
def occurrences (s needle : String) : Nat := occurrencesIn needle.toList s.toList

/-! ## Needles whose first character stands nowhere else in them

Two occurrences of such a needle never overlap. -/

/-- A text is empty, begins with one of some needles, or begins with a character at which none of
them begins. -/
theorem scanInduction (needles : List (List Char)) (hne : [] ∉ needles) {P : List Char → Prop}
    (nil : P []) (found : ∀ needle ∈ needles, ∀ rest, P rest → P (needle ++ rest))
    (other : ∀ c rest, (∀ needle ∈ needles, ¬needle <+: c :: rest) → P rest → P (c :: rest))
    (cs : List Char) : P cs := by
  induction hn : cs.length using Nat.strongRecOn generalizing cs with
  | ind n ih =>
    subst hn
    cases cs with
    | nil => exact nil
    | cons c rest =>
      by_cases h : ∃ needle ∈ needles, needle <+: c :: rest
      · obtain ⟨needle, hneedle, later, hlater⟩ := h
        have hpos : 0 < needle.length :=
          List.length_pos_iff.mpr fun hnil => hne (hnil ▸ hneedle)
        have hlength : needle.length + later.length = (c :: rest).length := by
          rw [← hlater, List.length_append]
        rw [← hlater]
        exact found needle hneedle later (ih later.length (by omega) later rfl)
      · have hnone : ∀ needle ∈ needles, ¬needle <+: c :: rest :=
          fun needle hneedle hprefix => h ⟨needle, hneedle, hprefix⟩
        exact other c rest hnone (ih rest.length (Nat.lt_succ_self _) rest rfl)

section Needle

variable {mark : Char} {tail : List Char} (insert : List Char)

theorem needleInduction (mark : Char) (tail : List Char) {P : List Char → Prop} (nil : P [])
    (found : ∀ rest, P rest → P (mark :: tail ++ rest))
    (other : ∀ c rest, ¬mark :: tail <+: c :: rest → P rest → P (c :: rest))
    (cs : List Char) : P cs := by
  induction cs using scanInduction [mark :: tail] (by simp) with
  | nil => exact nil
  | found needle hneedle rest ih =>
    rw [List.mem_singleton] at hneedle
    subst hneedle
    exact found rest ih
  | other c rest hnone ih => exact other c rest (hnone _ (List.mem_singleton_self _)) ih

theorem replaceFrom_skip (needle x rest : List Char) :
    replaceFrom needle insert x.length (x ++ rest) = replaceFrom needle insert 0 rest := by
  induction x with
  | nil => rfl
  | cons c x ih => exact ih

theorem replaceFrom_found (rest : List Char) :
    replaceFrom (mark :: tail) insert 0 (mark :: tail ++ rest) =
      insert ++ replaceFrom (mark :: tail) insert 0 rest := by
  have hhere : (mark :: tail).isPrefixOf (mark :: (tail ++ rest)) = true :=
    List.isPrefixOf_iff_prefix.mpr (List.prefix_append (mark :: tail) rest)
  rw [List.cons_append, replaceFrom, if_pos hhere, List.length_cons, Nat.add_sub_cancel,
    replaceFrom_skip]

theorem replaceFrom_other {needle : List Char} {c : Char} {rest : List Char}
    (h : ¬needle <+: c :: rest) :
    replaceFrom needle insert 0 (c :: rest) = c :: replaceFrom needle insert 0 rest := by
  rw [replaceFrom, if_neg (by rwa [List.isPrefixOf_iff_prefix])]

theorem occurrencesIn_other {needle : List Char} {c : Char} {rest : List Char}
    (h : ¬needle <+: c :: rest) :
    occurrencesIn needle (c :: rest) = occurrencesIn needle rest := by
  rw [occurrencesIn, if_neg (by rwa [List.isPrefixOf_iff_prefix]), Nat.zero_add]

theorem not_prefix_of_ne {c : Char} (h : mark ≠ c) (rest : List Char) :
    ¬mark :: tail <+: c :: rest :=
  fun hprefix => h (List.cons_prefix_cons.mp hprefix).1

/-- Where the mark does not stand, nothing is found. -/
theorem replaceFrom_append_of_not_mem {x : List Char} (h : mark ∉ x) (rest : List Char) :
    replaceFrom (mark :: tail) insert 0 (x ++ rest) =
      x ++ replaceFrom (mark :: tail) insert 0 rest := by
  induction x with
  | nil => rfl
  | cons c x ih =>
    rw [List.mem_cons, not_or] at h
    rw [List.cons_append, replaceFrom_other insert (not_prefix_of_ne h.1 _), ih h.2,
      List.cons_append]

theorem occurrencesIn_append_of_not_mem {x : List Char} (h : mark ∉ x) (rest : List Char) :
    occurrencesIn (mark :: tail) (x ++ rest) = occurrencesIn (mark :: tail) rest := by
  induction x with
  | nil => rfl
  | cons c x ih =>
    rw [List.mem_cons, not_or] at h
    rw [List.cons_append, occurrencesIn_other (not_prefix_of_ne h.1 _), ih h.2]

variable (hmark : mark ∉ tail)
include hmark

theorem occurrencesIn_found (rest : List Char) :
    occurrencesIn (mark :: tail) (mark :: tail ++ rest) =
      1 + occurrencesIn (mark :: tail) rest := by
  have hhere : (mark :: tail).isPrefixOf (mark :: (tail ++ rest)) = true :=
    List.isPrefixOf_iff_prefix.mpr (List.prefix_append (mark :: tail) rest)
  rw [List.cons_append, occurrencesIn, if_pos hhere, occurrencesIn_append_of_not_mem hmark]

/-- No needle begins in front of another one and ends in it. -/
theorem not_prefix_append_needle {c : Char} {rest : List Char} (h : ¬mark :: tail <+: c :: rest)
    (y : List Char) : ¬mark :: tail <+: c :: (rest ++ (mark :: tail ++ y)) := by
  intro hprefix
  rw [List.cons_prefix_cons] at h hprefix
  obtain ⟨rfl, later, hlater⟩ := hprefix
  have hnot : ¬tail <+: rest := fun htail => h ⟨rfl, htail⟩
  obtain ⟨z, hz, -⟩ | ⟨z, hz, hmore⟩ := List.append_eq_append_iff.mp hlater
  · exact hnot ⟨z, hz.symm⟩
  · cases z with
    | nil => exact hnot ⟨[], by rw [hz, List.append_nil, List.append_nil]⟩
    | cons e z =>
      -- the end of the first needle begins where the second one does
      rw [List.cons_append, List.cons_append, List.cons.injEq] at hmore
      apply hmark
      rw [hz, hmore.1]
      exact List.mem_append_right rest List.mem_cons_self

theorem replaceFrom_append_needle (x y : List Char) :
    replaceFrom (mark :: tail) insert 0 (x ++ (mark :: tail ++ y)) =
      replaceFrom (mark :: tail) insert 0 x ++
        (insert ++ replaceFrom (mark :: tail) insert 0 y) := by
  induction x using needleInduction mark tail with
  | nil => exact replaceFrom_found insert y
  | found rest ih =>
    rw [List.append_assoc, replaceFrom_found, ih, replaceFrom_found, List.append_assoc]
  | other c rest h ih =>
    rw [List.cons_append, replaceFrom_other insert (not_prefix_append_needle hmark h y), ih,
      replaceFrom_other insert h, List.cons_append]

theorem occurrencesIn_append_needle (x y : List Char) :
    occurrencesIn (mark :: tail) (x ++ (mark :: tail ++ y)) =
      occurrencesIn (mark :: tail) x + 1 + occurrencesIn (mark :: tail) y := by
  induction x using needleInduction mark tail with
  | nil => rw [List.nil_append, occurrencesIn_found hmark]; rfl
  | found rest ih =>
    rw [List.append_assoc, occurrencesIn_found hmark, ih, occurrencesIn_found hmark]
    omega
  | other c rest h ih =>
    rw [List.cons_append, occurrencesIn_other (not_prefix_append_needle hmark h y), ih,
      occurrencesIn_other h]

theorem length_replaceFrom (x : List Char) :
    (replaceFrom (mark :: tail) insert 0 x).length +
        occurrencesIn (mark :: tail) x * (mark :: tail).length =
      x.length + occurrencesIn (mark :: tail) x * insert.length := by
  induction x using needleInduction mark tail with
  | nil => simp [replaceFrom, occurrencesIn]
  | found rest ih =>
    rw [replaceFrom_found, occurrencesIn_found hmark, List.length_append, List.length_append,
      Nat.add_mul, Nat.add_mul]
    omega
  | other c rest h ih =>
    rw [replaceFrom_other insert h, occurrencesIn_other h, List.length_cons (a := c),
      List.length_cons (a := c)]
    omega

theorem replaceFrom_of_occurrencesIn_eq_zero {x : List Char}
    (hnone : occurrencesIn (mark :: tail) x = 0) :
    replaceFrom (mark :: tail) insert 0 x = x := by
  induction x using needleInduction mark tail with
  | nil => rfl
  | found rest ih =>
    rw [occurrencesIn_found hmark] at hnone
    omega
  | other c rest h ih =>
    rw [occurrencesIn_other h] at hnone
    rw [replaceFrom_other insert h, ih hnone]

end Needle

theorem replaceFrom_self (mark : Char) (tail x : List Char) :
    replaceFrom (mark :: tail) (mark :: tail) 0 x = x := by
  induction x using needleInduction mark tail with
  | nil => rfl
  | found rest ih => rw [replaceFrom_found, ih]
  | other c rest h ih => rw [replaceFrom_other _ h, ih]

/-- Where a text of the same length as the needle replaces it and changes nothing, the text is the
needle or there was none. -/
theorem occurrencesIn_eq_zero_of_replaceFrom_eq {mark : Char} {tail insert x : List Char}
    (hlength : insert.length = (mark :: tail).length) (hne : insert ≠ mark :: tail)
    (h : replaceFrom (mark :: tail) insert 0 x = x) : occurrencesIn (mark :: tail) x = 0 := by
  induction x using needleInduction mark tail with
  | nil => rfl
  | found rest ih =>
    rw [replaceFrom_found] at h
    exact absurd (List.append_inj h hlength).1 hne
  | other c rest hnot ih =>
    rw [replaceFrom_other _ hnot, List.cons.injEq] at h
    rw [occurrencesIn_other hnot, ih h.2]

end Text

/-! ## Templates as slots -/

/-- What a template says about one place of an argument. -/
inductive Slot where
  /-- The character itself. -/
  | char (c : Char)
  /-- The input file. -/
  | input
  /-- The output folder. -/
  | output
  deriving DecidableEq, Repr

namespace Slot

def fill (input output : List Char) : Slot → List Char
  | char c => [c]
  | .input => input
  | .output => output

/-- The slots of a template, read from left to right; the first `skip` characters belong to the
placeholder found last. -/
def read : Nat → List Char → List Slot
  | _, [] => []
  | skip + 1, _ :: rest => read skip rest
  | 0, c :: rest =>
    if inputPlaceholder.toList.isPrefixOf (c :: rest) then
      .input :: read (inputPlaceholder.length - 1) rest
    else if outputPlaceholder.toList.isPrefixOf (c :: rest) then
      .output :: read (outputPlaceholder.length - 1) rest
    else .char c :: read 0 rest

end Slot

/-- A template with all its placeholders filled in at once. What is filled in depends on the template
alone, so neither path is searched for placeholders. -/
def filledAtOnce (input outputDir : Path) (template : String) : String :=
  String.ofList ((Slot.read 0 template.toList).flatMap
    (Slot.fill input.text.toList outputDir.text.toList))

namespace Slot

@[simp] theorem count_output_char (c : Char) (slots : List Slot) :
    (char c :: slots).count .output = slots.count .output :=
  List.count_cons_of_ne (by simp)

@[simp] theorem count_output_input (slots : List Slot) :
    (input :: slots).count .output = slots.count .output :=
  List.count_cons_of_ne (by simp)

/-- Two texts for the output folder make a difference for each placeholder that stands for it. -/
theorem length_fill (input output output' : List Char) (slots : List Slot) :
    (slots.flatMap (fill input output)).length + slots.count .output * output'.length =
      (slots.flatMap (fill input output')).length + slots.count .output * output.length := by
  induction slots with
  | nil => simp
  | cons slot slots ih =>
    rw [List.flatMap_cons, List.flatMap_cons, List.length_append, List.length_append]
    cases slot with
    | char c =>
      rw [count_output_char]
      simp only [fill]
      omega
    | input =>
      rw [count_output_input]
      simp only [fill]
      omega
    | output =>
      rw [List.count_cons_self, Nat.add_mul, Nat.add_mul]
      simp only [fill]
      omega

section Marked

variable {mark : Char} {tail : List Char} (hmark : mark ∉ tail) (input : List Char)
include hmark

/-- The placeholders that stand for the output folder are all there when the input is filled in. -/
theorem count_output_le (x : List Char) (slots : List Slot) :
    slots.count .output ≤
      Text.occurrencesIn (mark :: tail) (x ++ slots.flatMap (fill input (mark :: tail))) := by
  induction slots generalizing x with
  | nil => exact Nat.zero_le _
  | cons slot slots ih =>
    rw [List.flatMap_cons]
    cases slot with
    | char c =>
      rw [← List.append_assoc, count_output_char]
      exact ih (x ++ [c])
    | input =>
      rw [← List.append_assoc, count_output_input]
      exact ih (x ++ input)
    | output =>
      have hlater := ih []
      rw [List.nil_append] at hlater
      rw [fill, Text.occurrencesIn_append_needle hmark, List.count_cons_self]
      omega

/-- If there are no other placeholders, the output folder is filled in where the slots say. -/
theorem replaceFrom_fill_of_count_eq (output x : List Char) (slots : List Slot)
    (h : Text.occurrencesIn (mark :: tail) (x ++ slots.flatMap (fill input (mark :: tail))) =
      slots.count .output) :
    Text.replaceFrom (mark :: tail) output 0 (x ++ slots.flatMap (fill input (mark :: tail))) =
      x ++ slots.flatMap (fill input output) := by
  induction slots generalizing x with
  | nil =>
    rw [List.flatMap_nil, List.append_nil] at h ⊢
    rw [List.flatMap_nil, List.append_nil]
    exact Text.replaceFrom_of_occurrencesIn_eq_zero output hmark h
  | cons slot slots ih =>
    rw [List.flatMap_cons] at h ⊢
    rw [List.flatMap_cons]
    cases slot with
    | char c =>
      rw [← List.append_assoc, count_output_char] at h
      rw [← List.append_assoc, ← List.append_assoc]
      exact ih (x ++ [c]) h
    | input =>
      rw [← List.append_assoc, count_output_input] at h
      rw [← List.append_assoc, ← List.append_assoc]
      exact ih (x ++ input) h
    | output =>
      rw [fill, Text.occurrencesIn_append_needle hmark, List.count_cons_self] at h
      have hle := count_output_le hmark input [] slots
      rw [List.nil_append] at hle
      have hlater := ih [] (by rw [List.nil_append]; omega)
      rw [List.nil_append, List.nil_append] at hlater
      rw [fill, Text.replaceFrom_append_needle output hmark, hlater,
        Text.replaceFrom_of_occurrencesIn_eq_zero output hmark (by omega)]
      rfl

/-- If the output folder is filled in just where the slots say, there are no other placeholders. -/
theorem count_eq_of_replaceFrom_fill {output : List Char} (hne : output ≠ mark :: tail)
    (x : List Char) (slots : List Slot)
    (h : Text.replaceFrom (mark :: tail) output 0
        (x ++ slots.flatMap (fill input (mark :: tail))) =
      x ++ slots.flatMap (fill input output)) :
    Text.occurrencesIn (mark :: tail) (x ++ slots.flatMap (fill input (mark :: tail))) =
      slots.count .output := by
  by_cases hlength : output.length = (mark :: tail).length
  · induction slots generalizing x with
    | nil =>
      rw [List.flatMap_nil, List.append_nil, List.flatMap_nil, List.append_nil] at h
      rw [List.flatMap_nil, List.append_nil]
      exact Text.occurrencesIn_eq_zero_of_replaceFrom_eq hlength hne h
    | cons slot slots ih =>
      rw [List.flatMap_cons, List.flatMap_cons] at h
      rw [List.flatMap_cons]
      cases slot with
      | char c =>
        rw [← List.append_assoc, ← List.append_assoc] at h
        rw [← List.append_assoc, count_output_char]
        exact ih (x ++ [c]) h
      | input =>
        rw [← List.append_assoc, ← List.append_assoc] at h
        rw [← List.append_assoc, count_output_input]
        exact ih (x ++ input) h
      | output =>
        -- the first parts have the same length, so each part is filled in by itself
        rw [fill, fill, Text.replaceFrom_append_needle output hmark] at h
        have hsame := Text.length_replaceFrom output hmark x
        rw [hlength] at hsame
        obtain ⟨hx, hrest⟩ := List.append_inj h (by omega)
        have hnone := Text.occurrencesIn_eq_zero_of_replaceFrom_eq hlength hne hx
        have hlater := ih [] (List.append_cancel_left hrest)
        rw [List.nil_append] at hlater
        rw [fill, Text.occurrencesIn_append_needle hmark, hnone, hlater, List.count_cons_self]
        omega
  · -- every further placeholder would change the length
    obtain ⟨more, hmore⟩ := Nat.exists_eq_add_of_le (count_output_le hmark input x slots)
    have hreplaced := Text.length_replaceFrom output hmark
      (x ++ slots.flatMap (fill input (mark :: tail)))
    have hfilled := length_fill input output (mark :: tail) slots
    rw [h, hmore, Nat.add_mul, Nat.add_mul, List.length_append, List.length_append] at hreplaced
    have hzero : more = 0 := by
      by_cases hpos : 0 < more
      · exact absurd (Nat.eq_of_mul_eq_mul_left hpos (by omega)).symm hlength
      · omega
    rw [hmore, hzero, Nat.add_zero]

end Marked

/-! ## The slots of a template -/

theorem inputPlaceholder_toList :
    inputPlaceholder.toList = '\x7b' :: ['i', 'n', 'p', 'u', 't', '\x7d'] := rfl

theorem outputPlaceholder_toList :
    outputPlaceholder.toList = '\x7b' :: ['o', 'u', 't', 'p', 'u', 't', '\x7d'] := rfl

theorem not_input_prefix_output (rest : List Char) :
    ¬inputPlaceholder.toList <+: outputPlaceholder.toList ++ rest := by
  simp [inputPlaceholder_toList, outputPlaceholder_toList]

theorem not_output_prefix_input (rest : List Char) :
    ¬outputPlaceholder.toList <+: inputPlaceholder.toList ++ rest := by
  simp [inputPlaceholder_toList, outputPlaceholder_toList]

theorem read_skip (x rest : List Char) : read x.length (x ++ rest) = read 0 rest := by
  induction x with
  | nil => rfl
  | cons c x ih => exact ih

theorem read_input (rest : List Char) :
    read 0 (inputPlaceholder.toList ++ rest) = .input :: read 0 rest := by
  have hhere := List.isPrefixOf_iff_prefix.mpr (List.prefix_append inputPlaceholder.toList rest)
  rw [inputPlaceholder_toList] at hhere ⊢
  rw [List.cons_append] at hhere ⊢
  rw [read, inputPlaceholder_toList, if_pos hhere]
  exact congrArg _ (read_skip ['i', 'n', 'p', 'u', 't', '\x7d'] rest)

theorem read_output (rest : List Char) :
    read 0 (outputPlaceholder.toList ++ rest) = .output :: read 0 rest := by
  have hother := mt List.isPrefixOf_iff_prefix.mp (not_input_prefix_output rest)
  have hhere := List.isPrefixOf_iff_prefix.mpr (List.prefix_append outputPlaceholder.toList rest)
  rw [outputPlaceholder_toList] at hother hhere ⊢
  rw [List.cons_append] at hother hhere ⊢
  rw [read, if_neg hother, outputPlaceholder_toList, if_pos hhere]
  exact congrArg _ (read_skip ['o', 'u', 't', 'p', 'u', 't', '\x7d'] rest)

theorem read_char {c : Char} {rest : List Char} (hinput : ¬inputPlaceholder.toList <+: c :: rest)
    (houtput : ¬outputPlaceholder.toList <+: c :: rest) :
    read 0 (c :: rest) = .char c :: read 0 rest := by
  rw [read, if_neg (by rwa [List.isPrefixOf_iff_prefix]),
    if_neg (by rwa [List.isPrefixOf_iff_prefix])]

theorem templateInduction {P : List Char → Prop} (nil : P [])
    (input : ∀ rest, P rest → P (inputPlaceholder.toList ++ rest))
    (output : ∀ rest, P rest → P (outputPlaceholder.toList ++ rest))
    (char : ∀ c rest, ¬inputPlaceholder.toList <+: c :: rest →
      ¬outputPlaceholder.toList <+: c :: rest → P rest → P (c :: rest))
    (template : List Char) : P template := by
  induction template using
    Text.scanInduction [inputPlaceholder.toList, outputPlaceholder.toList] (by decide) with
  | nil => exact nil
  | found needle hneedle rest ih =>
    simp only [List.mem_cons, List.not_mem_nil, or_false] at hneedle
    obtain rfl | rfl := hneedle
    · exact input rest ih
    · exact output rest ih
  | other c rest hnone ih => exact char c rest (hnone _ (by simp)) (hnone _ (by simp)) ih

/-- Filling in the input leaves the placeholders of the output as they are. -/
theorem replaceFrom_input (input template : List Char) :
    Text.replaceFrom inputPlaceholder.toList input 0 template =
      (read 0 template).flatMap (fill input outputPlaceholder.toList) := by
  induction template using templateInduction with
  | nil => rfl
  | input rest ih =>
    rw [read_input, List.flatMap_cons, ← ih]
    exact Text.replaceFrom_found input rest
  | output rest ih =>
    rw [read_output, List.flatMap_cons, ← ih]
    have hnot := not_input_prefix_output rest
    rw [outputPlaceholder_toList, List.cons_append] at hnot ⊢
    rw [Text.replaceFrom_other input hnot, inputPlaceholder_toList,
      Text.replaceFrom_append_of_not_mem input (by decide)]
    rfl
  | char c rest hinput houtput ih =>
    rw [read_char hinput houtput, List.flatMap_cons, ← ih, Text.replaceFrom_other input hinput]
    rfl

theorem count_output_read (template : List Char) :
    (read 0 template).count .output = Text.occurrencesIn outputPlaceholder.toList template := by
  induction template using templateInduction with
  | nil => rfl
  | input rest ih =>
    have hnot := not_output_prefix_input rest
    rw [read_input, count_output_input, ih]
    rw [inputPlaceholder_toList, List.cons_append] at hnot ⊢
    rw [Text.occurrencesIn_other hnot, outputPlaceholder_toList,
      Text.occurrencesIn_append_of_not_mem (by decide)]
  | output rest ih =>
    rw [read_output, List.count_cons_self, ih, outputPlaceholder_toList,
      Text.occurrencesIn_found (by decide), Nat.add_comm]
  | char c rest hinput houtput ih =>
    rw [read_char hinput houtput, count_output_char, ih, Text.occurrencesIn_other houtput]

end Slot

/-! ## Arguments -/

theorem replaceAll_input (input template : String) :
    Text.replaceAll template inputPlaceholder input =
      String.ofList ((Slot.read 0 template.toList).flatMap
        (Slot.fill input.toList outputPlaceholder.toList)) :=
  congrArg String.ofList (Slot.replaceFrom_input input.toList template.toList)

/-- A template is filled in one placeholder after the other, unless it is that of the input alone. -/
theorem fillArgument_of_ne {template : String} (h : template ≠ inputPlaceholder)
    (input outputDir : Path) :
    fillArgument input outputDir template =
      Text.replaceAll (Text.replaceAll template inputPlaceholder input.text) outputPlaceholder
        outputDir.text := by
  unfold fillArgument
  rw [if_neg h]
  split
  · rename_i houtput
    have hread : Slot.read 0 template.toList = [.output] := by rw [houtput]; rfl
    have hfound : Text.replaceFrom outputPlaceholder.toList outputDir.text.toList 0
        outputPlaceholder.toList = outputDir.text.toList :=
      (Text.replaceFrom_found outputDir.text.toList []).trans (List.append_nil _)
    rw [replaceAll_input, hread, Text.replaceAll, String.toList_ofList, List.flatMap_singleton,
      Slot.fill, hfound, String.ofList_toList]
  · rfl

theorem fillArgument_eq_filledAtOnce_iff (input outputDir : Path) (template : String) :
    fillArgument input outputDir template = filledAtOnce input outputDir template ↔
      template = inputPlaceholder ∨ outputDir.text = outputPlaceholder ∨
        Text.occurrences (Text.replaceAll template inputPlaceholder input.text) outputPlaceholder =
          Text.occurrences template outputPlaceholder := by
  by_cases hlone : template = inputPlaceholder
  · have hfilled : filledAtOnce input outputDir inputPlaceholder = input.text := by
      have hread : Slot.read 0 inputPlaceholder.toList = [.input] := rfl
      rw [filledAtOnce, hread, List.flatMap_singleton, Slot.fill, String.ofList_toList]
    rw [hlone, hfilled, fillArgument, if_pos rfl]
    exact iff_of_true rfl (Or.inl rfl)
  · have hmark : '\x7b' ∉ ['o', 'u', 't', 'p', 'u', 't', '\x7d'] := by decide
    rw [or_iff_right hlone, fillArgument_of_ne hlone, filledAtOnce, Text.replaceAll,
      String.ofList_inj, replaceAll_input, Text.occurrences, Text.occurrences,
      String.toList_ofList, ← Slot.count_output_read template.toList, ← String.toList_inj]
    constructor
    · intro h
      by_cases hsame : outputDir.text.toList = outputPlaceholder.toList
      · exact Or.inl hsame
      · exact Or.inr (Slot.count_eq_of_replaceFrom_fill hmark _ hsame [] _ h)
    · rintro (hsame | hcount)
      · rw [hsame]
        exact Text.replaceFrom_self '\x7b' _ _
      · exact Slot.replaceFrom_fill_of_count_eq hmark _ _ [] _ hcount

/-- **Templates are filled in at once unless the input path completes a placeholder.** There is one
argument for each template. It is the template with all its placeholders filled in at once if and
only if the template is nothing but the placeholder of the input, or the output folder has the very
name of its placeholder, or the output placeholder stands in the template as often before the input
path is filled in as afterwards. -/
theorem arguments_filled_at_once_iff_no_placeholder_arises (command : CodecCommand) (d : Direction)
    (input outputDir : Path) :
    let templates := command.templates.get d
    let arguments := command.arguments d input outputDir
    arguments.length = templates.length ∧
    (∀ k : Nat, arguments[k]? = templates[k]?.map (fillArgument input outputDir)) ∧
    ∀ template, fillArgument input outputDir template = filledAtOnce input outputDir template ↔
      template = inputPlaceholder ∨ outputDir.text = outputPlaceholder ∨
        Text.occurrences (Text.replaceAll template inputPlaceholder input.text) outputPlaceholder =
          Text.occurrences template outputPlaceholder := by
  intro templates arguments
  exact ⟨List.length_map _, fun k => List.getElem?_map,
    fillArgument_eq_filledAtOnce_iff input outputDir⟩

/-- An input path that looks like the placeholder of the output, and one that completes it. -/
theorem input_path_is_searched_for_output_placeholder :
    let command : CodecCommand :=
      ⟨"codec", .both ["--in=\x7binput\x7d", "\x7binput\x7d", "\x7bout\x7binput\x7d\x7d"]⟩
    command.arguments .compile ⟨"\x7boutput\x7d.txt"⟩ ⟨"out"⟩ =
      ["--in=out.txt", "\x7boutput\x7d.txt", "\x7boutout.txt\x7d"] ∧
    (command.templates.get .compile).map (filledAtOnce ⟨"\x7boutput\x7d.txt"⟩ ⟨"out"⟩) =
      ["--in=\x7boutput\x7d.txt", "\x7boutput\x7d.txt", "\x7bout\x7boutput\x7d.txt\x7d"] ∧
    command.arguments .compile ⟨"put"⟩ ⟨"out"⟩ = ["--in=put", "put", "out"] ∧
    (command.templates.get .compile).map (filledAtOnce ⟨"put"⟩ ⟨"out"⟩) =
      ["--in=put", "put", "\x7boutput\x7d"] := by
  decide

end BatchCodec
