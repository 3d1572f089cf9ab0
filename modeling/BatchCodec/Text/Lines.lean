/-!
Lines and separators.

A line ends at a line feed; one carriage return directly before that line feed belongs to the line
end and not to the line. Nothing else ends a line. Splitting at a separator and joining with it are
inverse to each other.

Functions of the program: `first_line` (`Text.firstLine`).
-/

namespace BatchCodec.Text

/-- The characters of the first line, all of them if no line ends. -/
def firstLineChars : List Char → List Char
  | [] => []
  | '\n' :: _ => []
  | '\r' :: '\n' :: _ => []
  | c :: rest => c :: firstLineChars rest

/-- The first line of a text, empty for the empty text. -/
def firstLine (s : String) : String :=
  String.ofList (firstLineChars s.toList)

/-- The pieces between the occurrences of a separator; there is always at least one. -/
def splitOn (sep : Char) : List Char → List (List Char)
  | [] => [[]]
  | c :: rest =>
    if c = sep then [] :: splitOn sep rest
    else
      match splitOn sep rest with
      | [] => [[c]]
      | piece :: pieces => (c :: piece) :: pieces

/-- The pieces with a separator between each two of them. -/
def joinWith (sep : Char) : List (List Char) → List Char
  | [] => []
  | [piece] => piece
  | piece :: pieces => piece ++ sep :: joinWith sep pieces

def split (sep : Char) (s : String) : List String :=
  (splitOn sep s.toList).map String.ofList

/-- The texts one below the other, a line feed between each two of them. -/
def unlines (lines : List String) : String :=
  String.ofList (joinWith '\n' (lines.map String.toList))

def byteSize : List Char → Nat
  | [] => 0
  | c :: cs => c.utf8Size + byteSize cs

theorem byteSize_append (cs more : List Char) :
    byteSize (cs ++ more) = byteSize cs + byteSize more := by
  induction cs with
  | nil => rw [List.nil_append, byteSize, Nat.zero_add]
  | cons c cs ih => rw [List.cons_append, byteSize, byteSize, ih, Nat.add_assoc]

/-- Splitting gives at least one piece. -/
theorem splitOn_ne_nil (sep : Char) (cs : List Char) : splitOn sep cs ≠ [] := by
  cases cs with
  | nil => simp [splitOn]
  | cons c rest =>
    by_cases h : c = sep
    · simp [splitOn, h]
    · cases hs : splitOn sep rest <;> simp [splitOn, h, hs]

/-- Joining the pieces gives the text back. -/
theorem joinWith_splitOn (sep : Char) (cs : List Char) : joinWith sep (splitOn sep cs) = cs := by
  induction cs with
  | nil => rfl
  | cons c rest ih =>
    obtain ⟨p, ps, hs⟩ := List.exists_cons_of_ne_nil (splitOn_ne_nil sep rest)
    rw [hs] at ih
    by_cases h : c = sep
    · simp [splitOn, h, hs, joinWith, ih]
    · cases ps with
      | nil => simpa [splitOn, h, hs, joinWith] using ih
      | cons q qs => simpa [splitOn, h, hs, joinWith] using ih

theorem joinWith_cons (sep : Char) (piece : List Char) (pieces : List (List Char)) :
    joinWith sep (piece :: pieces) = piece ++ pieces.flatMap (sep :: ·) := by
  induction pieces generalizing piece with
  | nil => simp [joinWith]
  | cons next pieces ih =>
    show piece ++ sep :: joinWith sep (next :: pieces) = _
    rw [ih next]
    rfl

theorem joinWith_append_cons (sep : Char) (before : List (List Char)) (piece : List Char)
    (after : List (List Char)) :
    joinWith sep (before ++ piece :: after) =
      before.flatMap (· ++ [sep]) ++ piece ++ after.flatMap (sep :: ·) := by
  induction before with
  | nil => rw [List.nil_append, joinWith_cons, List.flatMap_nil, List.nil_append]
  | cons first before ih =>
    obtain ⟨second, rest, hrest⟩ := List.exists_cons_of_ne_nil
      (List.append_ne_nil_of_right_ne_nil before (List.cons_ne_nil piece after))
    rw [List.cons_append, hrest]
    show first ++ sep :: joinWith sep (second :: rest) = _
    rw [← hrest, ih]
    simp

theorem splitOn_append_sep (sep : Char) (cs rest : List Char) :
    splitOn sep (cs ++ sep :: rest) = splitOn sep cs ++ splitOn sep rest := by
  induction cs with
  | nil => simp [splitOn]
  | cons c cs ih =>
    obtain ⟨p, ps, hs⟩ := List.exists_cons_of_ne_nil (splitOn_ne_nil sep cs)
    by_cases h : c = sep <;> simp [splitOn, h, ih, hs]

theorem splitOn_of_not_mem {sep : Char} {cs : List Char} (h : sep ∉ cs) : splitOn sep cs = [cs] := by
  induction cs with
  | nil => rfl
  | cons c cs ih =>
    rw [List.mem_cons, not_or] at h
    simp [splitOn, Ne.symm h.1, ih h.2]

theorem not_mem_of_mem_splitOn {sep : Char} {cs piece : List Char} (h : piece ∈ splitOn sep cs) :
    sep ∉ piece := by
  induction cs generalizing piece with
  | nil => simp_all [splitOn]
  | cons c cs ih =>
    obtain ⟨p, ps, hs⟩ := List.exists_cons_of_ne_nil (splitOn_ne_nil sep cs)
    rw [hs] at ih
    by_cases hc : c = sep
    · simp only [splitOn, hc, if_true, hs, List.mem_cons] at h
      obtain rfl | h := h
      · exact List.not_mem_nil
      · exact ih (List.mem_cons.mpr h)
    · simp only [splitOn, hc, if_false, hs, List.mem_cons] at h
      obtain rfl | h := h
      · simp [Ne.symm hc, ih List.mem_cons_self]
      · exact ih (List.mem_cons_of_mem p h)

/-- Joined pieces are split at the joints and wherever a piece is split. -/
theorem splitOn_joinWith {sep : Char} {pieces : List (List Char)} (h : pieces ≠ []) :
    splitOn sep (joinWith sep pieces) = pieces.flatMap (splitOn sep) := by
  induction pieces with
  | nil => exact absurd rfl h
  | cons piece pieces ih =>
    cases pieces with
    | nil => simp [joinWith]
    | cons next pieces =>
      have hjoin : joinWith sep (piece :: next :: pieces) =
          piece ++ sep :: joinWith sep (next :: pieces) := rfl
      rw [hjoin, splitOn_append_sep, ih (List.cons_ne_nil next pieces)]
      rfl

theorem flatMap_splitOn_of_not_mem {sep : Char} {pieces : List (List Char)}
    (h : ∀ piece ∈ pieces, sep ∉ piece) : pieces.flatMap (splitOn sep) = pieces := by
  induction pieces with
  | nil => rfl
  | cons piece pieces ih =>
    rw [List.forall_mem_cons] at h
    rw [List.flatMap_cons, splitOn_of_not_mem h.1, ih h.2, List.singleton_append]

/-- The lines of a text of lines are these lines exactly when none of them has a break. -/
theorem split_unlines_eq_iff {lines : List String} (h : lines ≠ []) :
    split '\n' (unlines lines) = lines ↔ ∀ line ∈ lines, '\n' ∉ line.toList := by
  constructor
  · intro hsplit line hline
    rw [← hsplit, split, List.mem_map] at hline
    obtain ⟨piece, hpiece, rfl⟩ := hline
    rw [String.toList_ofList]
    exact not_mem_of_mem_splitOn hpiece
  · intro hnone
    have hne : lines.map String.toList ≠ [] := by simpa using h
    rw [split, unlines, String.toList_ofList, splitOn_joinWith hne,
      flatMap_splitOn_of_not_mem (by simpa using hnone)]
    simp

theorem newline_not_mem_firstLineChars (cs : List Char) : '\n' ∉ firstLineChars cs := by
  fun_induction firstLineChars cs with
  | case1 => exact List.not_mem_nil
  | case2 => exact List.not_mem_nil
  | case3 => exact List.not_mem_nil
  | case4 c rest hfeed _ ih =>
    have hc : '\n' ≠ c := fun h => hfeed h.symm
    simp [hc, ih]

theorem newline_not_mem_firstLine (s : String) : '\n' ∉ (firstLine s).toList := by
  rw [firstLine, String.toList_ofList]
  exact newline_not_mem_firstLineChars s.toList

/-- `line` is `cs` up to the first line end. -/
def IsFirstLine (line cs : List Char) : Prop :=
  '\n' ∉ line ∧
    (cs = line ∨ (∃ rest, cs = line ++ '\r' :: '\n' :: rest) ∨
      ∃ rest, cs = line ++ '\n' :: rest ∧ line.getLast? ≠ some '\r')

theorem isFirstLine_firstLineChars (cs : List Char) : IsFirstLine (firstLineChars cs) cs := by
  refine ⟨newline_not_mem_firstLineChars cs, ?_⟩
  fun_induction firstLineChars cs with
  | case1 => exact Or.inl rfl
  | case2 rest => exact Or.inr (Or.inr ⟨rest, rfl, by simp⟩)
  | case3 rest => exact Or.inr (Or.inl ⟨rest, rfl⟩)
  | case4 c rest hfeed hreturn ih =>
    rcases ih with hall | ⟨more, hmore⟩ | ⟨more, hmore, hlast⟩
    · exact Or.inl (congrArg (c :: ·) hall)
    · exact Or.inr (Or.inl ⟨more, congrArg (c :: ·) hmore⟩)
    · refine Or.inr (Or.inr ⟨more, congrArg (c :: ·) hmore, ?_⟩)
      rw [List.getLast?_cons]
      cases hline : (firstLineChars rest).getLast? with
      | some last => simpa [hline] using hlast
      | none =>
        -- nothing stands between the character and the line feed
        rw [List.getLast?_eq_none_iff] at hline
        rw [hline] at hmore
        intro hc
        exact hreturn more (by simpa using hc) hmore

/-- A line feed apart, a text is its own first line. -/
theorem firstLineChars_of_not_mem {cs : List Char} (h : '\n' ∉ cs) : firstLineChars cs = cs := by
  obtain ⟨-, hall | ⟨rest, hrest⟩ | ⟨rest, hrest, -⟩⟩ := isFirstLine_firstLineChars cs
  · exact hall.symm
  · exact absurd (by rw [hrest]; simp) h
  · exact absurd (by rw [hrest]; simp) h

end BatchCodec.Text
