import BatchCodec.Report.Table
/-!
A printed table read back.

A reader of a table sees lines of characters. The line on top shows by its joints how wide the columns
are; the lines that begin with a bar belong to rows, and the other lines part the rows from each other.
Within a line a cell is found by counting columns, since the bar may stand in a cell as well. What is
found is the cell up to the blanks at its end, which look like the padding (`Table.read`).

A column is wide enough for every line of its cells (`Table.fits_columnWidths`), so that each padded
cell fills its column and counting columns ends exactly behind it (`Table.cutAt_pad`). The lines have no
breaks within, so that the text is cut into the lines it was made of. Thus a table reads as its rows
(`Table.read_render`).
-/

namespace BatchCodec

namespace Text

theorem columns_append (cs more : List Char) : columns (cs ++ more) = columns cs + columns more := by
  induction cs with
  | nil => rw [List.nil_append, columns, Nat.zero_add]
  | cons c cs ih => rw [List.cons_append, columns, columns, ih, Nat.add_assoc]

theorem charWidth_blank : charWidth ' ' = 1 := by decide +kernel

theorem columns_blanks (n : Nat) : columns (List.replicate n ' ') = n := by
  induction n with
  | zero => rfl
  | succ n ih => rw [List.replicate_succ, columns, charWidth_blank, ih, Nat.add_comm]

/-- A text of pieces ends each of them but the last with the separator. -/
theorem intercalate_eq_joinWith (sep : Char) (pieces : List (List Char)) :
    [sep].intercalate pieces = joinWith sep pieces := by
  induction pieces with
  | nil => rfl
  | cons piece pieces ih =>
    cases pieces with
    | nil => rw [List.intercalate_singleton]; rfl
    | cons next pieces =>
      rw [List.intercalate_cons_cons, ih]
      simp [joinWith]

end Text

namespace Table

/-! ## Reading -/

def dropBlanks (cs : List Char) : List Char := (cs.reverse.dropWhile (· == ' ')).reverse

/-- The shortest beginning of a line that fills a number of columns, and the rest of the line. -/
def cutAt : List Char → Nat → List Char × List Char
  | [], _ => ([], [])
  | c :: cs, n =>
    if n = 0 then ([], c :: cs)
    else
      let (front, rest) := cutAt cs (n - Text.charWidth c)
      (c :: front, rest)

/-- The cells of a line of a row, each behind a bar and a blank. -/
def cellsOf : List Nat → List Char → List (List Char)
  | [], _ => []
  | width :: widths, line =>
    let (cell, rest) := cutAt line.tail (width + 2)
    dropBlanks cell.tail :: cellsOf widths rest

/-- The widths of the columns between the joints of the line on top. -/
def widthsOf (top : List Char) : List Nat :=
  (Text.splitOn '┬' top.tail.dropLast).map (·.length - 2)

/-- The lines between those that do not begin with a bar. -/
def blocksOf : List (List Char) → List (List (List Char))
  | [] => [[]]
  | line :: lines =>
    if line.head? = some '│' then
      match blocksOf lines with
      | [] => [[line]]
      | block :: blocks => (line :: block) :: blocks
    else [] :: blocksOf lines

/-- The rows of a printed table, each as its lines, and each line as its cells. -/
def read (text : String) : List (List (List String)) :=
  match Text.splitOn '\n' text.toList with
  | [] => []
  | top :: lines =>
    ((blocksOf lines).filter (· ≠ [])).map fun block =>
      block.map fun line => (cellsOf (widthsOf top) line).map String.ofList

def height (row : List String) : Nat := ((row.map cellLines).map List.length).foldl max 0

/-- What can be read of a row: in each of its lines the lines of its cells, if there are as many, up to
the blanks at their ends. -/
def shown (row : List String) : List (List String) :=
  (List.range (height row)).map fun i =>
    row.map fun cell => String.ofList (dropBlanks ((cellLines cell)[i]?.getD "").toList)

/-! ## Widths -/

/-- The widths are enough for the cells of a row, and there are as many. -/
def Fits : List Nat → List String → Prop
  | [], [] => True
  | width :: widths, cell :: row => cellWidth cell ≤ width ∧ Fits widths row
  | _, _ => False

theorem fits_zipWith_max {widths : List Nat} {row : List String}
    (h : widths.length = row.length) : Fits (List.zipWith max widths (row.map cellWidth)) row := by
  induction widths generalizing row with
  | nil =>
    rw [List.eq_nil_of_length_eq_zero h.symm]
    trivial
  | cons width widths ih =>
    cases row with
    | nil => cases h
    | cons cell row => exact ⟨Nat.le_max_right _ _, ih (Nat.succ.inj h)⟩

/-- A wider table fits as well. -/
theorem Fits.zipWith_max {widths more : List Nat} {row : List String} (h : Fits widths row)
    (hmore : more.length = widths.length) : Fits (List.zipWith max widths more) row := by
  induction widths generalizing more row with
  | nil => exact h
  | cons width widths ih =>
    cases more with
    | nil => cases hmore
    | cons m more =>
      cases row with
      | nil => exact h
      | cons cell row =>
        exact ⟨Nat.le_trans h.1 (Nat.le_max_left _ _), ih h.2 (Nat.succ.inj hmore)⟩

/-- Going through the rows, the widths become enough for each of them and stay enough. -/
theorem fits_foldl {n : Nat} {rows : List (List String)} (hrows : ∀ row ∈ rows, row.length = n)
    {widths : List Nat} (hwidths : widths.length = n) :
    let last := rows.foldl (fun widths row => List.zipWith max widths (row.map cellWidth)) widths
    last.length = n ∧ (∀ row ∈ rows, Fits last row) ∧ ∀ row, Fits widths row → Fits last row := by
  induction rows generalizing widths with
  | nil => exact ⟨hwidths, nofun, fun row h => h⟩
  | cons first rows ih =>
    rw [List.forall_mem_cons] at hrows
    have hfirst : (first.map cellWidth).length = widths.length := by
      rw [List.length_map, hrows.1, hwidths]
    have hnext : (List.zipWith max widths (first.map cellWidth)).length = n := by
      rw [List.length_zipWith, hfirst, Nat.min_self, hwidths]
    obtain ⟨hlength, hall, hkeep⟩ := ih hrows.2 hnext
    refine ⟨hlength, List.forall_mem_cons.mpr ⟨hkeep first ?_, hall⟩, fun row h => hkeep row ?_⟩
    · exact fits_zipWith_max (by rw [← hfirst, List.length_map])
    · exact h.zipWith_max hfirst

/-- The columns of a table are wide enough for all its rows. -/
theorem fits_columnWidths {t : Table} {n : Nat} (h : ∀ row ∈ t.rows, row.length = n)
    {row : List String} (hrow : row ∈ t.rows) : Fits t.columnWidths row := by
  have hstart : ((t.rows.head?.getD []).map fun _ => 0).length = n := by
    obtain ⟨first, rows, hrows⟩ := List.exists_cons_of_ne_nil (List.ne_nil_of_mem hrow)
    rw [hrows] at h ⊢
    exact (List.length_map _).trans (h first List.mem_cons_self)
  exact (fits_foldl h hstart).2.1 row hrow

theorem le_foldl_max (ns : List Nat) (start : Nat) :
    start ≤ ns.foldl max start ∧ ∀ n ∈ ns, n ≤ ns.foldl max start := by
  induction ns generalizing start with
  | nil => exact ⟨Nat.le_refl start, nofun⟩
  | cons n ns ih =>
    obtain ⟨hstart, hall⟩ := ih (max start n)
    exact ⟨Nat.le_trans (Nat.le_max_left _ _) hstart,
      List.forall_mem_cons.mpr ⟨Nat.le_trans (Nat.le_max_right _ _) hstart, hall⟩⟩

theorem width_le_cellWidth (cell : String) (i : Nat) :
    Text.width ((cellLines cell)[i]?.getD "") ≤ cellWidth cell := by
  cases h : (cellLines cell)[i]? with
  | none => exact Nat.zero_le _
  | some line =>
    exact (le_foldl_max _ 0).2 _ (List.mem_map_of_mem (List.mem_of_getElem? h))

/-! ## One line of a row -/

theorem cutAt_zero (cs : List Char) : cutAt cs 0 = ([], cs) := by
  cases cs <;> rfl

/-- A blank ends a column where the columns before it are filled. -/
theorem cutAt_blank (cs rest : List Char) :
    cutAt (cs ++ ' ' :: rest) (Text.columns cs + 1) = (cs ++ [' '], rest) := by
  induction cs with
  | nil =>
    simp [cutAt, Text.columns, Text.charWidth_blank, cutAt_zero]
  | cons c cs ih =>
    have hcolumns : Text.columns (c :: cs) = Text.charWidth c + Text.columns cs := rfl
    have hrest : Text.charWidth c + Text.columns cs + 1 - Text.charWidth c =
        Text.columns cs + 1 := by omega
    rw [List.cons_append, cutAt, if_neg (Nat.succ_ne_zero _), hcolumns, hrest, ih]
    rfl

theorem toList_pad (width : Nat) (line : String) :
    (pad width line).toList =
      ' ' :: (line.toList ++ List.replicate (width - Text.width line) ' ') ++ [' '] := by
  simp [pad]

theorem cutAt_pad {width : Nat} {line : String} (h : Text.width line ≤ width) (rest : List Char) :
    cutAt ((pad width line).toList ++ rest) (width + 2) = ((pad width line).toList, rest) := by
  let front := ' ' :: (line.toList ++ List.replicate (width - Text.width line) ' ')
  have hfront : Text.columns front + 1 = width + 2 := by
    have hblank : Text.columns [' '] = 1 := Text.columns_blanks 1
    have hsplit : front = [' '] ++ (line.toList ++ List.replicate (width - Text.width line) ' ') :=
      rfl
    rw [hsplit, Text.columns_append, Text.columns_append, Text.columns_blanks, hblank]
    show 1 + (Text.width line + _) + 1 = _
    omega
  rw [toList_pad, ← hfront, List.append_assoc]
  exact cutAt_blank front rest

theorem dropBlanks_append_replicate (cs : List Char) (n : Nat) :
    dropBlanks (cs ++ List.replicate n ' ') = dropBlanks cs := by
  induction n with
  | zero => rw [List.replicate_zero, List.append_nil]
  | succ n ih =>
    rw [← ih, List.replicate_succ', ← List.append_assoc]
    simp [dropBlanks]

theorem dropBlanks_tail_pad (width : Nat) (line : String) :
    dropBlanks (pad width line).toList.tail = dropBlanks line.toList := by
  have htail : (pad width line).toList.tail =
      line.toList ++ List.replicate (width - Text.width line + 1) ' ' := by
    rw [toList_pad, List.replicate_succ', ← List.append_assoc]
    rfl
  rw [htail, dropBlanks_append_replicate]

/-- Each cell of a line of a row is found where its column is. -/
theorem cellsOf_line {widths : List Nat} {row : List String} (h : Fits widths row) (i : Nat)
    (rest : List Char) :
    cellsOf widths
        ((List.zipWith (fun w lines => pad w (lines[i]?.getD "")) widths
          (row.map cellLines)).flatMap (fun cell => '│' :: cell.toList) ++ rest) =
      row.map fun cell => dropBlanks ((cellLines cell)[i]?.getD "").toList := by
  induction widths generalizing row with
  | nil =>
    cases row with
    | nil => rfl
    | cons cell row => exact absurd h id
  | cons width widths ih =>
    cases row with
    | nil => exact absurd h id
    | cons cell row =>
      have hcut := cutAt_pad (Nat.le_trans (width_le_cellWidth cell i) h.1)
      simp only [List.map_cons, List.zipWith_cons_cons, List.flatMap_cons, List.cons_append,
        List.append_assoc, cellsOf, List.tail_cons, hcut, dropBlanks_tail_pad, ih h.2]

theorem toList_between_bars {cells : List String} (h : cells ≠ []) :
    (between "│" "│" "│" cells).toList =
      cells.flatMap (fun cell => '│' :: cell.toList) ++ ['│'] := by
  obtain ⟨cell, cells, rfl⟩ := List.exists_cons_of_ne_nil h
  rw [between, String.toList_append, String.toList_append, String.toList_intercalate]
  show ['│'] ++ ['│'].intercalate ((cell :: cells).map String.toList) ++ ['│'] = _
  rw [Text.intercalate_eq_joinWith, List.map_cons, Text.joinWith_cons, List.flatMap_map]
  rfl

/-! ## The lines of a table -/

section Lines

variable {widths : List Nat} {row : List String} (h : Fits widths row) (hrow : row ≠ [])
include h hrow

theorem toList_rowLines : (rowLines widths row).map String.toList =
    (List.range (height row)).map fun i =>
      (List.zipWith (fun w lines => pad w (lines[i]?.getD "")) widths
        (row.map cellLines)).flatMap (fun cell => '│' :: cell.toList) ++ ['│'] := by
  rw [rowLines, List.map_map]
  apply List.map_congr_left
  intro i _
  refine toList_between_bars fun hnil => ?_
  -- there is a width for every cell
  cases row with
  | nil => exact hrow rfl
  | cons cell row =>
    cases widths with
    | nil => exact h
    | cons width widths => simp at hnil

/-- The lines of a row read as what can be seen of it. -/
theorem map_cellsOf_rowLines :
    ((rowLines widths row).map String.toList).map
        (fun line => (cellsOf widths line).map String.ofList) = shown row := by
  rw [toList_rowLines h hrow, List.map_map]
  apply List.map_congr_left
  intro i _
  rw [Function.comp_apply, cellsOf_line h, List.map_map]
  rfl

omit h in
theorem rowLines_ne_nil : (rowLines widths row).map String.toList ≠ [] := by
  obtain ⟨cell, row, rfl⟩ := List.exists_cons_of_ne_nil hrow
  have hcell : 0 < (cellLines cell).length := by
    rw [cellLines, Text.split, List.length_map]
    exact List.length_pos_iff.mpr (Text.splitOn_ne_nil _ _)
  have hheight : (cellLines cell).length ≤ height (cell :: row) :=
    (le_foldl_max _ 0).2 _ List.mem_cons_self
  intro hnil
  rw [rowLines, List.map_map, List.map_eq_nil_iff, List.range_eq_nil] at hnil
  change height (cell :: row) = 0 at hnil
  omega

omit h hrow in
theorem head?_of_mem_rowLines {line : List Char}
    (hline : line ∈ (rowLines widths row).map String.toList) : line.head? = some '│' := by
  obtain ⟨text, htext, rfl⟩ := List.mem_map.mp hline
  obtain ⟨i, -, rfl⟩ := List.mem_map.mp htext
  rw [between, String.toList_append, String.toList_append]
  rfl

omit h hrow in
theorem newline_not_mem_pad (width : Nat) (cell : String) (i : Nat) :
    '\n' ∉ (pad width ((cellLines cell)[i]?.getD "")).toList := by
  have hline : '\n' ∉ ((cellLines cell)[i]?.getD "").toList := by
    cases hi : (cellLines cell)[i]? with
    | none => exact List.not_mem_nil
    | some line =>
      obtain ⟨piece, hpiece, rfl⟩ := List.mem_map.mp (List.mem_of_getElem? hi)
      rw [Option.getD_some, String.toList_ofList]
      exact Text.not_mem_of_mem_splitOn hpiece
  rw [toList_pad]
  simp [hline]

omit h hrow in
theorem newline_not_mem_zipWith_pad (widths : List Nat) (row : List String) (i : Nat) :
    ∀ cell ∈ List.zipWith (fun w lines => pad w (lines[i]?.getD "")) widths (row.map cellLines),
      '\n' ∉ cell.toList := by
  induction widths generalizing row with
  | nil => exact nofun
  | cons width widths ih =>
    cases row with
    | nil => exact nofun
    | cons cell row =>
      exact List.forall_mem_cons.mpr ⟨newline_not_mem_pad width cell i, ih row⟩

theorem newline_not_mem_rowLines {line : String} (hline : line ∈ rowLines widths row) :
    '\n' ∉ line.toList := by
  have hmem := List.mem_map_of_mem (f := String.toList) hline
  rw [toList_rowLines h hrow] at hmem
  obtain ⟨i, -, hi⟩ := List.mem_map.mp hmem
  rw [← hi]
  simp only [List.mem_append, List.mem_flatMap, List.mem_cons, List.not_mem_nil, or_false, not_or]
  refine ⟨?_, by decide⟩
  rintro ⟨cell, hcell, hbar | hchar⟩
  · cases hbar
  · exact newline_not_mem_zipWith_pad widths row i cell hcell hchar

end Lines

theorem toList_rule {left middle right : String} {l m r : Char} (hleft : left.toList = [l])
    (hmiddle : middle.toList = [m]) (hright : right.toList = [r]) (widths : List Nat) :
    (rule left middle right widths).toList =
      l :: (Text.joinWith m (widths.map fun w => List.replicate (w + 2) '─') ++ [r]) := by
  rw [rule, between, String.toList_append, String.toList_append, String.toList_intercalate,
    List.map_map, hleft, hmiddle, hright, Text.intercalate_eq_joinWith]
  simp [Function.comp_def]

theorem newline_not_mem_rule {left middle right : String} {l m r : Char}
    (hleft : left.toList = [l]) (hmiddle : middle.toList = [m]) (hright : right.toList = [r])
    (hl : l ≠ '\n') (hm : m ≠ '\n') (hr : r ≠ '\n') (widths : List Nat) :
    '\n' ∉ (rule left middle right widths).toList := by
  rw [toList_rule hleft hmiddle hright]
  cases widths with
  | nil => simp [Text.joinWith, hl.symm, hr.symm]
  | cons width widths =>
    rw [List.map_cons, Text.joinWith_cons]
    simp [hl.symm, hm.symm, hr.symm]

theorem widthsOf_rule {widths : List Nat} (h : widths ≠ []) :
    widthsOf (rule "┌" "┬" "┐" widths).toList = widths := by
  have hne : (widths.map fun w => List.replicate (w + 2) '─') ≠ [] := by simpa using h
  have hjoint : ∀ piece ∈ widths.map fun w => List.replicate (w + 2) '─', '┬' ∉ piece := by
    rw [List.forall_mem_map]
    exact fun w _ hmem => absurd (List.mem_replicate.mp hmem).2 (by decide)
  rw [toList_rule (l := '┌') (m := '┬') (r := '┐') rfl rfl rfl, widthsOf, List.tail_cons, List.dropLast_concat,
    Text.splitOn_joinWith hne, Text.flatMap_splitOn_of_not_mem hjoint, List.map_map]
  simp [Function.comp_def]

/-- A line that does not begin with a bar ends a block. -/
theorem blocksOf_append {block : List (List Char)} (h : ∀ line ∈ block, line.head? = some '│')
    {line : List Char} (hline : line.head? ≠ some '│') (lines : List (List Char)) :
    blocksOf (block ++ line :: lines) = block :: blocksOf lines := by
  induction block with
  | nil => rw [List.nil_append, blocksOf, if_neg hline]
  | cons first block ih =>
    rw [List.forall_mem_cons] at h
    rw [List.cons_append, blocksOf, if_pos h.1, ih h.2]

theorem head?_rule {left : String} {l : Char} (hleft : left.toList = [l]) (middle right : String)
    (widths : List Nat) : (rule left middle right widths).toList.head? = some l := by
  rw [rule, between, String.toList_append, String.toList_append, hleft]
  rfl

/-- The blocks of lines below the top are those of the rows, and nothing behind the last line. -/
theorem blocksOf_body (widths : List Nat) {rows : List (List String)} (hrows : rows ≠ []) :
    blocksOf ((body widths rows ++ [rule "└" "┴" "┘" widths]).map String.toList) =
      rows.map (fun row => (rowLines widths row).map String.toList) ++ [[]] := by
  induction rows with
  | nil => exact absurd rfl hrows
  | cons row rows ih =>
    have hblock : ∀ line ∈ (rowLines widths row).map String.toList, line.head? = some '│' :=
      fun line => head?_of_mem_rowLines
    cases rows with
    | nil =>
      rw [body, List.map_append]
      exact blocksOf_append hblock (by rw [head?_rule (l := '└') rfl]; decide) []
    | cons next rows =>
      rw [body, List.append_assoc, List.map_append, List.cons_append, List.map_cons,
        blocksOf_append hblock (by rw [head?_rule (l := '├') rfl]; decide),
        ih (List.cons_ne_nil _ _)]
      · rfl
      · exact List.cons_ne_nil _ _

theorem newline_not_mem_body {widths : List Nat} {rows : List (List String)}
    (h : ∀ row ∈ rows, Fits widths row ∧ row ≠ []) :
    ∀ line ∈ body widths rows, '\n' ∉ line.toList := by
  induction rows with
  | nil => exact nofun
  | cons row rows ih =>
    rw [List.forall_mem_cons] at h
    have hrow : ∀ line ∈ rowLines widths row, '\n' ∉ line.toList :=
      fun line => newline_not_mem_rowLines h.1.1 h.1.2
    cases rows with
    | nil => exact hrow
    | cons next rows =>
      have hrule : '\n' ∉ (rule "├" "┼" "┤" widths).toList :=
        newline_not_mem_rule (l := '├') (m := '┼') (r := '┤') rfl rfl rfl (by decide) (by decide)
          (by decide) widths
      rw [body]
      · rw [List.forall_mem_append, List.forall_mem_cons]
        exact ⟨hrow, hrule, ih h.2⟩
      · exact List.cons_ne_nil _ _

/-- **A printed table reads as its rows.** -/
theorem read_render {t : Table} {n : Nat} (h : ∀ row ∈ t.rows, row.length = n) (hn : 0 < n)
    (hrows : t.rows ≠ []) : read t.render = t.rows.map shown := by
  have hfits : ∀ row ∈ t.rows, Fits t.columnWidths row ∧ row ≠ [] := by
    intro row hrow
    refine ⟨fits_columnWidths h hrow, ?_⟩
    rintro rfl
    exact absurd (h [] hrow) (Nat.ne_of_lt hn)
  have hwidths : t.columnWidths ≠ [] := by
    obtain ⟨first, rows, hfirst⟩ := List.exists_cons_of_ne_nil hrows
    have hmem : first ∈ t.rows := hfirst ▸ List.mem_cons_self
    obtain ⟨hfit, hne⟩ := hfits first hmem
    intro hnil
    rw [hnil] at hfit
    cases first with
    | nil => exact hne rfl
    | cons cell row => exact hfit
  let lines := body t.columnWidths t.rows ++ [rule "└" "┴" "┘" t.columnWidths]
  have hlines : ∀ line ∈ rule "┌" "┬" "┐" t.columnWidths :: lines, '\n' ∉ line.toList := by
    rw [List.forall_mem_cons, List.forall_mem_append, List.forall_mem_singleton]
    refine ⟨?_, newline_not_mem_body hfits, ?_⟩
    · exact newline_not_mem_rule (l := '┌') (m := '┬') (r := '┐') rfl rfl rfl (by decide) (by decide)
        (by decide) _
    · exact newline_not_mem_rule (l := '└') (m := '┴') (r := '┘') rfl rfl rfl (by decide) (by decide)
        (by decide) _
  have hsplit : Text.splitOn '\n' t.render.toList =
      (rule "┌" "┬" "┐" t.columnWidths).toList :: lines.map String.toList := by
    show Text.splitOn '\n' (Text.unlines (_ :: lines)).toList = _
    rw [Text.unlines, String.toList_ofList, Text.splitOn_joinWith (by simp),
      Text.flatMap_splitOn_of_not_mem (by simpa using hlines)]
    rfl
  have hblocks : (blocksOf (lines.map String.toList)).filter (· ≠ []) =
      t.rows.map fun row => (rowLines t.columnWidths row).map String.toList := by
    rw [blocksOf_body t.columnWidths hrows, List.filter_append, List.filter_eq_self.mpr]
    · simp
    · rw [List.forall_mem_map]
      intro row hrow
      simpa using rowLines_ne_nil (hfits row hrow).2
  rw [read, hsplit]
  dsimp only
  rw [hblocks, widthsOf_rule hwidths, List.map_map]
  apply List.map_congr_left
  intro row hrow
  exact map_cellsOf_rowLines (hfits row hrow).1 (hfits row hrow).2

end Table

end BatchCodec
