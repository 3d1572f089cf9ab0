/-!
Blank characters and trimming.

A character is blank when it has the Unicode property White_Space. Trimming removes blank
characters from both ends of a text and nothing else, so the trimmed text is empty exactly when
every character was blank.
-/

namespace BatchCodec.Text

/-- Whether a character has the Unicode property White_Space. -/
def isBlank (c : Char) : Bool :=
  let n := c.toNat
  (0x09 ≤ n && n ≤ 0x0D) || n == 0x20 || n == 0x85 || n == 0xA0 || n == 0x1680 ||
    (0x2000 ≤ n && n ≤ 0x200A) || n == 0x2028 || n == 0x2029 || n == 0x202F || n == 0x205F ||
    n == 0x3000

def trimEnd (cs : List Char) : List Char :=
  (cs.reverse.dropWhile isBlank).reverse

def trimChars (cs : List Char) : List Char :=
  trimEnd (cs.dropWhile isBlank)

/-- The text without the blank characters at either end. -/
def trim (s : String) : String :=
  String.ofList (trimChars s.toList)

/-- Whether all characters of the text are blank. -/
def Blank (s : String) : Prop := ∀ c ∈ s.toList, isBlank c = true

/-- `s` is what is left of `whole` when the blank characters at both ends are removed; it begins and
ends with a character that is not blank. -/
structure Trimmed (whole s : String) : Prop where
  cut : ∃ before after, whole.toList = before ++ s.toList ++ after ∧
    (∀ c ∈ before, isBlank c = true) ∧ ∀ c ∈ after, isBlank c = true
  first : ∃ c, s.toList.head? = some c ∧ isBlank c = false
  last : ∃ c, s.toList.getLast? = some c ∧ isBlank c = false

theorem exists_trimEnd_append (cs : List Char) :
    ∃ after, cs = trimEnd cs ++ after ∧ ∀ c ∈ after, isBlank c = true := by
  refine ⟨(cs.reverse.takeWhile isBlank).reverse, ?_, ?_⟩
  · rw [trimEnd, ← List.reverse_append, List.takeWhile_append_dropWhile, List.reverse_reverse]
  · intro c hc
    exact List.all_eq_true.mp List.all_takeWhile c (List.mem_reverse.mp hc)

theorem getLast?_trimEnd {cs : List Char} (h : trimEnd cs ≠ []) :
    ∃ c, (trimEnd cs).getLast? = some c ∧ isBlank c = false := by
  have hne : cs.reverse.dropWhile isBlank ≠ [] := by simpa [trimEnd] using h
  refine ⟨(cs.reverse.dropWhile isBlank).head hne, ?_, List.head_dropWhile_not isBlank hne⟩
  rw [trimEnd, List.getLast?_reverse, List.head?_eq_some_head hne]

theorem head?_trimChars {cs : List Char} (h : trimChars cs ≠ []) :
    ∃ c, (trimChars cs).head? = some c ∧ isBlank c = false := by
  obtain ⟨after, hafter, -⟩ := exists_trimEnd_append (cs.dropWhile isBlank)
  obtain ⟨c, rest, hc⟩ := List.exists_cons_of_ne_nil h
  -- the first character left is the first one that was not dropped
  have hdrop : cs.dropWhile isBlank = c :: (rest ++ after) := by
    rw [hafter]
    show trimChars cs ++ after = _
    rw [hc]
    rfl
  refine ⟨c, by rw [hc]; rfl, ?_⟩
  have hnot := List.head_dropWhile_not isBlank (l := cs) (by simp [hdrop])
  simpa only [hdrop, List.head_cons] using hnot

theorem exists_trimChars_append (cs : List Char) :
    ∃ before after, cs = before ++ trimChars cs ++ after ∧
      (∀ c ∈ before, isBlank c = true) ∧ ∀ c ∈ after, isBlank c = true := by
  obtain ⟨after, hafter, hblank⟩ := exists_trimEnd_append (cs.dropWhile isBlank)
  refine ⟨cs.takeWhile isBlank, after, ?_, List.all_eq_true.mp List.all_takeWhile, hblank⟩
  rw [List.append_assoc, trimChars, ← hafter, List.takeWhile_append_dropWhile]

/-- Trimming leaves nothing exactly of a blank text. -/
theorem trim_eq_empty_iff (s : String) : trim s = "" ↔ Blank s := by
  have hempty : trim s = "" ↔ trimChars s.toList = [] := by
    rw [trim, ← String.toList_inj, String.toList_ofList]
    rfl
  rw [hempty]
  obtain ⟨before, after, hs, hbefore, hafter⟩ := exists_trimChars_append s.toList
  constructor
  · intro hnil c hc
    rw [hs, hnil, List.append_nil, List.mem_append] at hc
    exact hc.elim (hbefore c) (hafter c)
  · intro hblank
    apply Classical.byContradiction
    intro hne
    obtain ⟨c, hc, hnot⟩ := head?_trimChars hne
    have hmem : c ∈ s.toList := by
      rw [hs]
      simp [List.mem_of_mem_head? hc]
    rw [hblank c hmem] at hnot
    cases hnot

theorem trimmed_trim {s : String} (h : ¬Blank s) : Trimmed s (trim s) := by
  have hne : trimChars s.toList ≠ [] := by
    intro hnil
    apply h
    rw [← trim_eq_empty_iff, trim, hnil]
  have htrim : (trim s).toList = trimChars s.toList := by rw [trim, String.toList_ofList]
  refine ⟨?_, ?_, ?_⟩
  · rw [htrim]
    exact exists_trimChars_append s.toList
  · rw [htrim]
    exact head?_trimChars hne
  · rw [htrim]
    exact getLast?_trimEnd hne

end BatchCodec.Text
