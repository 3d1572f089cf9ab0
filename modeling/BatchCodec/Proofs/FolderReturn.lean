import BatchCodec.Memory
import BatchCodec.Picker
import BatchCodec.Proofs.Choice
import BatchCodec.Proofs.FolderExpansion
/-!
From the files of a folder back to the folder.

A path is its first piece and the pieces behind it; pieces that stand for nothing (empty ones and single
full stops) may follow the last component. A path without those is bare (`Path.bare`), and the folder
remembered for an entry of a path is the path, bare (`Path.folderOf_join`): joining a name adds a piece
and taking the parent removes it, together with the blank pieces in front of it. The text that a prompt
is prefilled with goes through the pieces of the bare path and ends with a separator
(`Path.pieces_seed_bare`). So it has the same components, becomes bare as the same path, and is looked
up by the same steps but for those that lead nowhere else (`FileTree.locate_seed_bare`).

Two paths to one folder with the same components stand for files with the same components if the same
files are within reach of both (`components_folderFiles`), since files are sorted by nothing but their
components. The prefilled text is no longer than the path, so it stands for all files of the path
(`exists_file_of_seed_bare`); it may be shorter, and then stand for files that were out of reach of the
path (`remembered_folder_has_all_the_files`, `remembered_folder_has_a_file_more`).
-/

namespace BatchCodec

namespace Text

/-- A text of pieces ends like the last of them. -/
theorem getLast?_joinWith (sep : Char) (pieces : List (List Char)) {last : List Char}
    (h : last ≠ []) : (joinWith sep (pieces ++ [last])).getLast? = last.getLast? := by
  rw [joinWith_append_cons, List.flatMap_nil, List.append_nil, List.getLast?_append]
  cases hlast : last.getLast? with
  | none => exact absurd (List.getLast?_eq_none_iff.mp hlast) h
  | some c => rfl

/-- Splitting moves no character but the separators. -/
theorem mem_iff_mem_splitOn {sep c : Char} (hne : c ≠ sep) (cs : List Char) :
    c ∈ cs ↔ ∃ piece ∈ splitOn sep cs, c ∈ piece := by
  induction cs with
  | nil => simp [splitOn]
  | cons x cs ih =>
    obtain ⟨piece, pieces, hs⟩ := List.exists_cons_of_ne_nil (splitOn_ne_nil sep cs)
    rw [hs] at ih
    by_cases hx : x = sep
    · simp [splitOn, hx, hs, hne, ih]
    · simp [splitOn, hx, hs, ih, or_assoc]

/-- The first piece is empty if the text begins with the separator, and begins like the text if not. -/
theorem splitOn_cases {sep : Char} {cs first : List Char} {rest : List (List Char)} (hne : cs ≠ [])
    (h : splitOn sep cs = first :: rest) :
    (∃ tail, cs = sep :: tail ∧ first = [] ∧ splitOn sep tail = rest) ∨
      ∃ c tail more, c ≠ sep ∧ cs = c :: tail ∧ first = c :: more := by
  obtain ⟨c, tail, rfl⟩ := List.exists_cons_of_ne_nil hne
  by_cases hc : c = sep
  · rw [splitOn, if_pos hc, List.cons.injEq] at h
    exact Or.inl ⟨tail, by rw [hc], h.1.symm, h.2⟩
  · obtain ⟨piece, pieces, hs⟩ := List.exists_cons_of_ne_nil (splitOn_ne_nil sep tail)
    rw [splitOn, if_neg hc, hs, List.cons.injEq] at h
    exact Or.inr ⟨c, tail, piece, hc, rfl, h.1.symm⟩

end Text

namespace Path

/-! ## Paths by their pieces -/

/-- Where a path begins, by its first piece; an empty one stands in front of the root. -/
def origin : List Char → List Component
  | [] => [.root]
  | ['.'] => [.here]
  | first => (Component.ofPiece? first).toList

theorem exists_pieces (p : Path) :
    ∃ first rest, Text.splitOn '/' p.text.toList = first :: rest :=
  List.exists_cons_of_ne_nil (Text.splitOn_ne_nil '/' p.text.toList)

theorem components_of_pieces {p : Path} (hne : p.text.toList ≠ []) {first : List Char}
    {rest : List (List Char)} (h : Text.splitOn '/' p.text.toList = first :: rest) :
    p.components = origin first ++ rest.filterMap Component.ofPiece? := by
  unfold components
  obtain ⟨tail, htext, rfl, rfl⟩ | ⟨c, tail, more, hc, htext, rfl⟩ := Text.splitOn_cases hne h
  · rw [htext]
    rfl
  · split
    · rename_i cs hcs
      rw [htext, List.cons.injEq] at hcs
      exact absurd hcs.1 hc
    · rw [h]
      split
      · rename_i pieces hpieces
        rw [List.cons.injEq] at hpieces
        rw [hpieces.1, hpieces.2]
        rfl
      · rename_i hhere
        have horigin : origin (c :: more) = (Component.ofPiece? (c :: more)).toList := by
          unfold origin
          split
          · contradiction
          · rename_i hdot
            exact absurd (by rw [hdot]) (hhere rest)
          · rfl
        rw [horigin, List.filterMap_cons]
        cases Component.ofPiece? (c :: more) <;> rfl

/-! ## Pieces at the end that stand for nothing -/

theorem exists_dropInsignificant_append (pieces : List (List Char)) :
    ∃ blank, pieces = dropInsignificant pieces ++ blank ∧
      ∀ piece ∈ blank, isSignificant piece = false := by
  refine ⟨(pieces.reverse.takeWhile fun piece => !isSignificant piece).reverse, ?_, ?_⟩
  · rw [dropInsignificant, ← List.reverse_append, List.takeWhile_append_dropWhile,
      List.reverse_reverse]
  · intro piece hpiece
    have hblank := List.all_eq_true.mp List.all_takeWhile piece (List.mem_reverse.mp hpiece)
    simpa using hblank

theorem dropInsignificant_concat_of_significant (pieces : List (List Char)) {piece : List Char}
    (h : isSignificant piece = true) : dropInsignificant (pieces ++ [piece]) = pieces ++ [piece] := by
  simp [dropInsignificant, h]

theorem dropInsignificant_concat_of_not (pieces : List (List Char)) {piece : List Char}
    (h : isSignificant piece = false) :
    dropInsignificant (pieces ++ [piece]) = dropInsignificant pieces := by
  simp [dropInsignificant, h]

/-- What is left is nothing, or ends with a piece that stands for something. -/
theorem dropInsignificant_cases (pieces : List (List Char)) :
    dropInsignificant pieces = [] ∨
      ∃ before last, dropInsignificant pieces = before ++ [last] ∧ isSignificant last = true := by
  unfold dropInsignificant
  have hhead := List.head?_dropWhile_not (fun piece => !isSignificant piece) pieces.reverse
  cases h : pieces.reverse.dropWhile fun piece => !isSignificant piece with
  | nil => exact Or.inl rfl
  | cons last before =>
    rw [h] at hhead
    exact Or.inr ⟨before.reverse, last, List.reverse_cons, by simpa using hhead⟩

theorem dropInsignificant_idem (pieces : List (List Char)) :
    dropInsignificant (dropInsignificant pieces) = dropInsignificant pieces := by
  rcases dropInsignificant_cases pieces with hnil | ⟨before, last, hlast, hsignificant⟩
  · rw [hnil]
    rfl
  · rw [hlast, dropInsignificant_concat_of_significant before hsignificant]

theorem filterMap_dropInsignificant (pieces : List (List Char)) :
    (dropInsignificant pieces).filterMap Component.ofPiece? =
      pieces.filterMap Component.ofPiece? := by
  obtain ⟨blank, hpieces, hblank⟩ := exists_dropInsignificant_append pieces
  have hnone : blank.filterMap Component.ofPiece? = [] := by
    rw [List.filterMap_eq_nil_iff]
    intro piece hpiece
    simpa [isSignificant] using hblank piece hpiece
  calc (dropInsignificant pieces).filterMap Component.ofPiece?
      = (dropInsignificant pieces ++ blank).filterMap Component.ofPiece? := by
        rw [List.filterMap_append, hnone, List.append_nil]
    _ = pieces.filterMap Component.ofPiece? := by rw [← hpieces]

/-! ## The folder of an entry -/

/-- The path with a first piece and others behind it; an empty first piece is in front of the root. -/
def ofPieces (first : List Char) (rest : List (List Char)) : Path :=
  ⟨String.ofList
    (if first = [] then '/' :: Text.joinWith '/' rest else Text.joinWith '/' (first :: rest))⟩

/-- A path without the separators and the full stops behind its last component. -/
def bare (p : Path) : Path :=
  match Text.splitOn '/' p.text.toList with
  | [] => p
  | first :: rest => ofPieces first (dropInsignificant rest)

section Entries

variable {p : Path} {first : List Char} {rest : List (List Char)}

theorem bare_of_pieces (h : Text.splitOn '/' p.text.toList = first :: rest) :
    p.bare = ofPieces first (dropInsignificant rest) := by
  rw [bare, h]

/-- The parent of a path goes through all pieces but the last that stands for something, and not
through those in front of it that stand for nothing. -/
theorem parent?_of_pieces (hne : p.text.toList ≠ []) {last : List Char}
    (hlast : isSignificant last = true)
    (h : Text.splitOn '/' p.text.toList = first :: (rest ++ [last])) :
    p.parent? = some (ofPieces first (dropInsignificant rest)) := by
  have hdrop := dropInsignificant_concat_of_significant rest hlast
  have hends : rest ++ [last] ≠ [] := by simp
  unfold parent? ofPieces
  -- an absolute path keeps its separator even if nothing else is left, a relative one its first piece
  obtain ⟨tail, htext, rfl, htail⟩ | ⟨c, tail, more, hc, htext, rfl⟩ := Text.splitOn_cases hne h
  · rw [htext]
    split
    · contradiction
    · rename_i cs hcs
      rw [List.cons.injEq] at hcs
      rw [← hcs.2, htail, hdrop]
      split
      · contradiction
      · rw [List.dropLast_concat, if_pos rfl]
    · rename_i hother
      exact absurd rfl (hother tail)
  · split
    · contradiction
    · rename_i cs hcs
      rw [htext, List.cons.injEq] at hcs
      exact absurd hcs.1 hc
    · rw [h]
      dsimp only
      rw [hdrop]
      split
      · contradiction
      · rw [List.dropLast_concat, if_neg (List.cons_ne_nil c more)]

/-- A name joined to a path is one more piece, in place of an empty one at the end. -/
theorem pieces_join (hne : p.text.toList ≠ []) {name : String} (hname : isName name = true)
    (h : Text.splitOn '/' p.text.toList = first :: rest) :
    ∃ front, Text.splitOn '/' (p.join name).text.toList = first :: (front ++ [name.toList]) ∧
      (rest = front ∨ rest = front ++ [[]]) := by
  obtain ⟨-, -, -, hsep, -⟩ := isName_iff.mp hname
  obtain ⟨hempty, -⟩ | ⟨cs, htext, hjoin⟩ | hjoin := p.join_cases name
  · exact absurd (by rw [hempty]; rfl) hne
  · -- the path ends with a separator, so that the name takes the place of its empty last piece
    rw [htext, Text.splitOn_append_sep] at h
    rw [hjoin, Text.splitOn_append_sep, Text.splitOn_of_not_mem hsep]
    obtain ⟨piece, pieces, hs⟩ := List.exists_cons_of_ne_nil (Text.splitOn_ne_nil '/' cs)
    rw [hs, List.cons_append, List.cons.injEq] at h
    rw [hs, ← h.1]
    exact ⟨pieces, rfl, Or.inr h.2.symm⟩
  · rw [hjoin, Text.splitOn_append_sep, Text.splitOn_of_not_mem hsep, h]
    exact ⟨rest, rfl, Or.inl rfl⟩

theorem text_join_ne (hne : p.text.toList ≠ []) {name : String} (hname : isName name = true) :
    (p.join name).text.toList ≠ [] := by
  obtain ⟨first, rest, h⟩ := p.exists_pieces
  obtain ⟨front, hpieces, -⟩ := pieces_join hne hname h
  intro hempty
  rw [hempty] at hpieces
  simp [Text.splitOn] at hpieces

theorem isSignificant_of_isName {name : String} (h : isName name = true) :
    isSignificant name.toList = true := by
  rw [isSignificant, ofPiece?_of_isName h]
  rfl

theorem text_ofPieces_ne (first : List Char) (rest : List (List Char)) :
    (ofPieces first rest).text.toList ≠ [] := by
  unfold ofPieces
  rw [String.toList_ofList]
  split
  · exact List.cons_ne_nil _ _
  · rename_i hfirst
    cases rest with
    | nil => exact hfirst
    | cons second rest => simp [Text.joinWith]

/-- The folder remembered for an entry of a path is the path, bare. -/
theorem folderOf_join (hne : p.text.toList ≠ []) {name : String} (hname : isName name = true) :
    Memory.folderOf (p.join name) = p.bare := by
  obtain ⟨first, rest, h⟩ := p.exists_pieces
  obtain ⟨front, hpieces, hrest⟩ := pieces_join hne hname h
  have hfront : dropInsignificant front = dropInsignificant rest := by
    rcases hrest with rfl | rfl
    · rfl
    · rw [dropInsignificant_concat_of_not front rfl]
  have hparent := parent?_of_pieces (text_join_ne hne hname) (isSignificant_of_isName hname) hpieces
  have htext : (ofPieces first (dropInsignificant rest)).text ≠ "" := fun hempty =>
    text_ofPieces_ne first (dropInsignificant rest) (by rw [hempty]; rfl)
  rw [Memory.folderOf, hparent, hfront, bare_of_pieces h]
  simp [htext]

def seed (p : Path) : Path := ⟨fileSeed p⟩

/-- It goes through the same pieces and ends with a separator. -/
theorem pieces_seed_ofPieces (hfirst : '/' ∉ first) (hrest : ∀ piece ∈ rest, '/' ∉ piece)
    (hends : rest = [] ∨ ∃ front last, rest = front ++ [last] ∧ last ≠ []) :
    Text.splitOn '/' (ofPieces first rest).seed.text.toList = first :: (rest ++ [[]]) := by
  by_cases hroot : first = [] ∧ rest = []
  · rw [hroot.1, hroot.2]
    decide
  · have htext : (ofPieces first rest).text.toList = Text.joinWith '/' (first :: rest) := by
      unfold ofPieces
      rw [String.toList_ofList]
      split
      · rename_i hempty
        obtain ⟨second, rest, rfl⟩ := List.exists_cons_of_ne_nil fun h => hroot ⟨hempty, h⟩
        rw [hempty]
        rfl
      · rfl
    -- the last piece is not empty, so that the text does not end with a separator
    have hlast : (ofPieces first rest).text.toList.getLast? ≠ some '/' := by
      obtain ⟨front, last, hpieces, hne, hsep⟩ : ∃ front last, first :: rest = front ++ [last] ∧
          last ≠ [] ∧ '/' ∉ last := by
        rcases hends with rfl | ⟨front, last, rfl, hne⟩
        · exact ⟨[], first, rfl, fun h => hroot ⟨h, rfl⟩, hfirst⟩
        · exact ⟨first :: front, last, rfl, hne, hrest last (by simp)⟩
      rw [htext, hpieces, Text.getLast?_joinWith '/' front hne]
      exact fun h => hsep (List.mem_of_getLast? h)
    have hseed : (ofPieces first rest).seed.text.toList =
        Text.joinWith '/' (first :: rest) ++ '/' :: [] := by
      show (fileSeed _).toList = _
      rw [fileSeed, if_neg (by simpa using hlast), String.toList_append, htext]
      rfl
    have hsplit : Text.splitOn '/' (Text.joinWith '/' (first :: rest)) = first :: rest := by
      rw [Text.splitOn_joinWith (List.cons_ne_nil _ _)]
      exact Text.flatMap_splitOn_of_not_mem (List.forall_mem_cons.mpr ⟨hfirst, hrest⟩)
    rw [hseed, Text.splitOn_append_sep, hsplit]
    rfl

theorem pieces_seed_bare (h : Text.splitOn '/' p.text.toList = first :: rest) :
    Text.splitOn '/' p.bare.seed.text.toList = first :: (dropInsignificant rest ++ [[]]) := by
  have hpieces : ∀ piece ∈ first :: rest, '/' ∉ piece := by
    rw [← h]
    exact fun piece => Text.not_mem_of_mem_splitOn
  rw [List.forall_mem_cons] at hpieces
  obtain ⟨blank, hrest, -⟩ := exists_dropInsignificant_append rest
  rw [bare_of_pieces h]
  apply pieces_seed_ofPieces hpieces.1
  · intro piece hpiece
    apply hpieces.2
    rw [hrest]
    exact List.mem_append_left blank hpiece
  · refine (dropInsignificant_cases rest).imp_right ?_
    rintro ⟨front, last, hlast, hsignificant⟩
    refine ⟨front, last, hlast, ?_⟩
    rintro rfl
    cases hsignificant

end Entries

theorem byteSize_of_pieces {p : Path} {first : List Char} {rest : List (List Char)}
    (h : Text.splitOn '/' p.text.toList = first :: rest) :
    p.byteSize = Text.byteSize first + Text.byteSize (rest.flatMap ('/' :: ·)) := by
  rw [byteSize, ← Text.joinWith_splitOn '/' p.text.toList, h, Text.joinWith_cons,
    Text.byteSize_append]

/-- What is prefilled ends with a separator, so that a name is put directly behind it. -/
theorem byteSize_join_seed (p : Path) (name : String) :
    (p.seed.join name).byteSize = p.seed.byteSize + Text.byteSize name.toList := by
  have hends : p.seed.text.toList.getLast? = some '/' := by
    show (fileSeed p).toList.getLast? = some '/'
    unfold fileSeed
    split
    · rename_i h
      exact beq_iff_eq.mp h
    · simp
  rw [join, if_pos (by simp [hends]), byteSize, String.toList_append, Text.byteSize_append]
  rfl

/-- An entry has no longer path behind the prefilled text than behind the path itself. -/
theorem byteSize_join_seed_bare_le {p : Path} (hne : p.text.toList ≠ []) {name : String}
    (hname : isName name = true) :
    (p.bare.seed.join name).byteSize ≤ (p.join name).byteSize := by
  obtain ⟨first, rest, h⟩ := p.exists_pieces
  obtain ⟨front, hpieces, hrest⟩ := pieces_join hne hname h
  obtain ⟨blank, hfront, -⟩ := exists_dropInsignificant_append front
  have hdrop : dropInsignificant rest = dropInsignificant front := by
    rcases hrest with rfl | rfl
    · rfl
    · rw [dropInsignificant_concat_of_not front rfl]
  have hfewer : Text.byteSize ((dropInsignificant front).flatMap ('/' :: ·)) ≤
      Text.byteSize (front.flatMap ('/' :: ·)) := by
    conv => rhs; rw [hfront, List.flatMap_append, Text.byteSize_append]
    exact Nat.le_add_right _ _
  have hname' : Text.byteSize ('/' :: name.toList) = 1 + Text.byteSize name.toList := rfl
  have hslash : Text.byteSize ['/'] = 1 := rfl
  rw [byteSize_join_seed, byteSize_of_pieces (pieces_seed_bare h), byteSize_of_pieces hpieces, hdrop]
  simp only [List.flatMap_append, Text.byteSize_append, List.flatMap_cons, List.flatMap_nil,
    List.append_nil, hname', hslash]
  omega

theorem text_seed_ne (p : Path) : p.seed.text.toList ≠ [] := by
  show (fileSeed p).toList ≠ []
  unfold fileSeed
  split
  · rename_i hends
    rintro hempty
    rw [hempty] at hends
    cases hends
  · simp

theorem text_bare_ne (p : Path) : p.bare.text.toList ≠ [] := by
  obtain ⟨first, rest, h⟩ := p.exists_pieces
  rw [bare_of_pieces h]
  exact text_ofPieces_ne first (dropInsignificant rest)

/-- What is prefilled for a bare path is the same path once it is bare again. -/
theorem bare_seed_bare (p : Path) : p.bare.seed.bare = p.bare := by
  obtain ⟨first, rest, h⟩ := p.exists_pieces
  rw [bare_of_pieces (pieces_seed_bare h), dropInsignificant_concat_of_not _ rfl,
    dropInsignificant_idem, bare_of_pieces h]

/-- The prefilled text has no characters but those of the path and separators. -/
theorem not_mem_seed_bare {p : Path} {c : Char} (hsep : c ≠ '/') (h : c ∉ p.text.toList) :
    c ∉ p.bare.seed.text.toList := by
  obtain ⟨first, rest, hpieces⟩ := p.exists_pieces
  obtain ⟨blank, hrest, -⟩ := exists_dropInsignificant_append rest
  rw [Text.mem_iff_mem_splitOn hsep] at h ⊢
  rw [pieces_seed_bare hpieces]
  rintro ⟨piece, hpiece, hc⟩
  refine h ⟨piece, ?_, hc⟩
  rw [hpieces]
  simp only [List.mem_cons, List.mem_append, List.not_mem_nil, or_false] at hpiece ⊢
  obtain hfirst | hrest' | rfl := hpiece
  · exact Or.inl hfirst
  · rw [hrest]
    exact Or.inr (List.mem_append_left blank hrest')
  · cases hc

/-- A path has one entry for each name. -/
theorem eq_of_join_eq {p : Path} {name name' : String} (h : p.join name = p.join name') :
    name = name' := by
  unfold join at h
  split at h <;> simpa [← String.toList_inj] using h

section Folders

variable {p : Path} (hne : p.text.toList ≠ [])
include hne

theorem components_seed_bare : p.bare.seed.components = p.components := by
  obtain ⟨first, rest, h⟩ := p.exists_pieces
  rw [components_of_pieces p.bare.text_seed_ne (pieces_seed_bare h), components_of_pieces hne h,
    List.filterMap_append, filterMap_dropInsignificant]
  simp [Component.ofPiece?]

/-- A separator at the end makes no other components. -/
theorem components_seed : p.seed.components = p.components := by
  obtain ⟨first, rest, h⟩ := p.exists_pieces
  by_cases hends : p.text.toList.getLast? = some '/'
  · rw [seed, fileSeed, if_pos (by simpa using hends)]
  · have hpieces : Text.splitOn '/' p.seed.text.toList = first :: (rest ++ [[]]) := by
      rw [seed, fileSeed, if_neg (by simpa using hends), String.toList_append]
      show Text.splitOn '/' (p.text.toList ++ '/' :: []) = _
      rw [Text.splitOn_append_sep, h]
      rfl
    rw [components_of_pieces p.text_seed_ne hpieces, components_of_pieces hne h,
      List.filterMap_append]
    simp [Component.ofPiece?]

theorem components_bare : p.bare.components = p.components := by
  rw [← components_seed p.text_bare_ne, components_seed_bare hne]

/-- The entry of a name has one more component. -/
theorem components_join {name : String} (hname : isName name = true) :
    (p.join name).components = p.components ++ [.name name.toList] := by
  obtain ⟨first, rest, h⟩ := p.exists_pieces
  obtain ⟨front, hpieces, hrest⟩ := pieces_join hne hname h
  have hfront : front.filterMap Component.ofPiece? = rest.filterMap Component.ofPiece? := by
    rcases hrest with rfl | rfl
    · rfl
    · simp [Component.ofPiece?]
  have hlast : [name.toList].filterMap Component.ofPiece? = [.name name.toList] := by
    rw [List.filterMap_cons, ofPiece?_of_isName hname]
    rfl
  rw [components_of_pieces (text_join_ne hne hname) hpieces, components_of_pieces hne h,
    List.filterMap_append, hfront, hlast, List.append_assoc]

end Folders

end Path

namespace FileTree

variable {t : FileTree}

/-- The empty path leads nowhere. -/
theorem text_ne_of_find {p : Path} {node : Node} (h : t.find p = .ok node) :
    p.text.toList ≠ [] := by
  obtain ⟨place, hplace, -⟩ := exists_place_of_find h
  exact (of_locate_eq_ok hplace).2.1

/-- The place where the first piece of a path leads. -/
def enter (t : FileTree) (first : List Char) : Except LookupError (List String) :=
  if first = [] then .ok [] else t.step t.current first

theorem locate_of_pieces {p : Path} (hnul : '\x00' ∉ p.text.toList) (hne : p.text.toList ≠ [])
    (hsize : p.byteSize < byteLimit) {first : List Char} {rest : List (List Char)}
    (h : Text.splitOn '/' p.text.toList = first :: rest) :
    t.locate p = (t.enter first).bind fun place => t.steps place rest := by
  rw [locate_eq_steps hnul hne hsize, trail]
  obtain ⟨tail, htext, rfl, htail⟩ | ⟨c, tail, more, hc, htext, rfl⟩ := Text.splitOn_cases hne h
  · rw [htext, List.head?_cons, if_pos rfl, List.tail_cons, htail]
    rfl
  · rw [if_neg (by simpa [htext] using hc), h, enter, if_neg (List.cons_ne_nil c more), steps]
    cases t.step t.current (c :: more) <;> rfl

/-- A piece that stands for nothing leads nowhere else. -/
theorem eq_of_step_insignificant {piece : List Char} (h : Path.isSignificant piece = false)
    {place next : List String} (hstep : t.step place piece = .ok next) : next = place := by
  rw [Path.isSignificant, Option.isSome_eq_false_iff, Option.isNone_iff_eq_none,
    Component.ofPiece?_eq_none_iff] at h
  rcases h with rfl | rfl
  · exact eq_of_step_empty hstep
  · unfold step at hstep
    split at hstep
    · cases hstep
    · cases hstep
    · rw [if_neg (List.cons_ne_nil _ _), if_pos rfl] at hstep
      split at hstep
      · cases hstep
      · exact (Except.ok.inj hstep).symm

theorem eq_of_steps_insignificant {blank : List (List Char)}
    (h : ∀ piece ∈ blank, Path.isSignificant piece = false) {place next : List String}
    (hsteps : t.steps place blank = .ok next) : next = place := by
  induction blank generalizing place with
  | nil => exact (Except.ok.inj hsteps).symm
  | cons piece blank ih =>
    rw [List.forall_mem_cons] at h
    rw [steps] at hsteps
    split at hsteps
    · rename_i mid hmid
      rw [ih h.2 hsteps, eq_of_step_insignificant h.1 hmid]
    · cases hsteps

/-- The prefilled text leads to the place that the path leads to, if that is a folder: the pieces it
leaves out lead nowhere else, and neither does the empty piece behind the separator. -/
theorem locate_seed_bare {p : Path} {place : List String} (h : t.locate p = .ok place)
    {access : Access} {entries : List (String × Node)}
    (hat : t.root.at? place = some (.folder access entries))
    (hsize : p.bare.seed.byteSize < byteLimit) : t.locate p.bare.seed = .ok place := by
  obtain ⟨hnul, hne, hsize'⟩ := of_locate_eq_ok h
  obtain ⟨first, rest, hpieces⟩ := p.exists_pieces
  obtain ⟨blank, hrest, hblank⟩ := Path.exists_dropInsignificant_append rest
  rw [locate_of_pieces hnul hne hsize' hpieces] at h
  rw [locate_of_pieces (Path.not_mem_seed_bare (by decide) hnul) p.bare.text_seed_ne hsize
    (Path.pieces_seed_bare hpieces)]
  cases henter : t.enter first with
  | error e => rw [henter] at h; cases h
  | ok origin =>
    rw [henter] at h
    change t.steps origin rest = .ok place at h
    show t.steps origin (Path.dropInsignificant rest ++ [[]]) = .ok place
    rw [hrest, steps_append] at h
    rw [steps_append]
    cases hmid : t.steps origin (Path.dropInsignificant rest) with
    | error e => rw [hmid] at h; cases h
    | ok mid =>
      rw [hmid] at h
      obtain rfl := eq_of_steps_insignificant hblank h
      show t.steps place [[]] = .ok place
      rw [steps_singleton, step, hat]
      rfl

theorem find_seed_bare {p : Path} {access : Access} {entries : List (String × Node)}
    (h : t.find p = .ok (.folder access entries)) (hsize : p.bare.seed.byteSize < byteLimit) :
    t.find p.bare.seed = .ok (.folder access entries) := by
  obtain ⟨place, hplace, hat⟩ := exists_place_of_find h
  exact find_eq_ok (locate_seed_bare hplace hat hsize) hat

end FileTree

/-! ## The files of a folder under two spellings -/

section Spellings

variable {t : FileTree} {p q : Path} {access : Access} {entries : List (String × Node)}

/-- Two paths to one folder with the same components stand for files with the same components, if the
same accepted files are within reach of both. -/
theorem components_folderFiles (ht : properEntries entries = true)
    (hp : t.find p = .ok (.folder access entries)) (hq : t.find q = .ok (.folder access entries))
    (hpne : p.text.toList ≠ []) (hqne : q.text.toList ≠ [])
    (hsame : q.components = p.components) {d : Direction}
    (hreach : ∀ name content, (name, Node.file content) ∈ entries → d.accepts ⟨name⟩ = true →
      (access.Reaches q name ↔ access.Reaches p name)) :
    (folderFiles t q (entries.map Prod.fst) d).map Path.components =
      (folderFiles t p (entries.map Prod.fst) d).map Path.components := by
  unfold folderFiles
  rw [Path.components_sort, Path.components_sort]
  congr 1
  simp only [List.filter_map, List.map_map]
  -- the same entries are kept under both spellings
  have hkept : ∀ entry ∈ entries,
      ((fun file => t.isFile file && d.accepts file) ∘ q.join ∘ Prod.fst) entry =
        ((fun file => t.isFile file && d.accepts file) ∘ p.join ∘ Prod.fst) entry := by
    rintro ⟨name, node⟩ hentry
    obtain ⟨hname, -, hnode⟩ := proper_of_mem ht hentry
    rw [Bool.eq_iff_iff]
    simp only [Function.comp, Bool.and_eq_true, FileTree.isFile_join_iff hp hname hnode,
      FileTree.isFile_join_iff hq hname hnode, accepts_join d _ hname]
    cases node with
    | folder access more => simp [Node.isFolder]
    | file content =>
      constructor
      · rintro ⟨⟨hfile, hq⟩, haccepts⟩
        exact ⟨⟨hfile, (hreach name content hentry haccepts).mp hq⟩, haccepts⟩
      · rintro ⟨⟨hfile, hp⟩, haccepts⟩
        exact ⟨⟨hfile, (hreach name content hentry haccepts).mpr hp⟩, haccepts⟩
  rw [List.filter_congr hkept]
  apply List.map_congr_left
  intro entry hentry
  have hname := (proper_of_mem ht (List.mem_filter.mp hentry).1).1
  simp only [Function.comp, Path.components_join hqne hname, Path.components_join hpne hname, hsame]

/-- The folder remembered for a file of a folder is that folder, bare. -/
theorem folderOf_of_mem_folderFiles (ht : properEntries entries = true)
    (hp : t.find p = .ok (.folder access entries)) (hne : p.text.toList ≠ []) {d : Direction}
    {file : Path} (hfile : file ∈ folderFiles t p (entries.map Prod.fst) d) :
    Memory.folderOf file = p.bare := by
  obtain ⟨name, content, hmem, -, -, rfl⟩ := (mem_folderFiles hp ht d file).mp hfile
  exact Path.folderOf_join hne (proper_of_mem ht hmem).1

/-! Of the prefilled text everything is within reach that is within reach of the path. -/

theorem reaches_seed_bare (hne : p.text.toList ≠ []) {name : String}
    (hname : Path.isName name = true) (h : access.Reaches p name) :
    access.Reaches p.bare.seed name :=
  ⟨h.1, Nat.lt_of_le_of_lt (Path.byteSize_join_seed_bare_le hne hname) h.2⟩

theorem components_join_seed_bare (hne : p.text.toList ≠ []) {name : String}
    (hname : Path.isName name = true) :
    (p.bare.seed.join name).components = (p.join name).components := by
  rw [Path.components_join p.bare.text_seed_ne hname, Path.components_join hne hname,
    Path.components_seed_bare hne]

variable (ht : properEntries entries = true) (hp : t.find p = .ok (.folder access entries))
  {d : Direction}
include ht hp

theorem find_seed_bare_of_mem {file : Path}
    (hfile : file ∈ folderFiles t p (entries.map Prod.fst) d) :
    t.find p.bare.seed = .ok (.folder access entries) := by
  obtain ⟨name, content, hentry, -, hreach, -⟩ := (mem_folderFiles hp ht d file).mp hfile
  have hsize :=
    (reaches_seed_bare (FileTree.text_ne_of_find hp) (proper_of_mem ht hentry).1 hreach).2
  rw [Path.byteSize_join_seed] at hsize
  exact FileTree.find_seed_bare hp (Nat.lt_of_le_of_lt (Nat.le_add_right _ _) hsize)

theorem exists_file_of_seed_bare {file : Path}
    (hfile : file ∈ folderFiles t p (entries.map Prod.fst) d) :
    ∃ file' ∈ folderFiles t p.bare.seed (entries.map Prod.fst) d,
      file'.components = file.components := by
  have hne := FileTree.text_ne_of_find hp
  have hseed := find_seed_bare_of_mem ht hp hfile
  obtain ⟨name, content, hentry, haccepts, hreach, rfl⟩ := (mem_folderFiles hp ht d file).mp hfile
  have hname := (proper_of_mem ht hentry).1
  refine ⟨p.bare.seed.join name, (mem_folderFiles hseed ht d _).mpr ?_,
    components_join_seed_bare hne hname⟩
  exact ⟨name, content, hentry, haccepts, reaches_seed_bare hne hname hreach, rfl⟩

/-- The prefilled text stands for no other files exactly if none of its files is out of reach of the
path for the length of the path. -/
theorem components_folderFiles_seed_bare_iff
    (hseed : t.find p.bare.seed = .ok (.folder access entries)) :
    (folderFiles t p.bare.seed (entries.map Prod.fst) d).map Path.components =
        (folderFiles t p (entries.map Prod.fst) d).map Path.components ↔
      ∀ name, p.bare.seed.join name ∈ folderFiles t p.bare.seed (entries.map Prod.fst) d →
        (p.join name).byteSize < FileTree.byteLimit := by
  have hne := FileTree.text_ne_of_find hp
  constructor
  · intro hsame name hfile
    obtain ⟨name', content, hentry, -, -, hjoin⟩ := (mem_folderFiles hseed ht d _).mp hfile
    obtain rfl := Path.eq_of_join_eq hjoin
    have hname := (proper_of_mem ht hentry).1
    -- the file has the components of one that the path stands for, so that it is the same entry
    have hmem := List.mem_map_of_mem (f := Path.components) hfile
    rw [hsame, components_join_seed_bare hne hname] at hmem
    obtain ⟨file, hfile, hcomponents⟩ := List.mem_map.mp hmem
    obtain ⟨name', content', hentry', -, hreach, rfl⟩ := (mem_folderFiles hp ht d file).mp hfile
    rw [eq_of_components_join (proper_of_mem ht hentry').1 hname hcomponents] at hreach
    exact hreach.2
  · intro hsize
    apply components_folderFiles ht hp hseed hne p.bare.text_seed_ne (Path.components_seed_bare hne)
    intro name content hentry haccepts
    refine ⟨fun hreach => ⟨hreach.1, hsize name ?_⟩,
      reaches_seed_bare hne (proper_of_mem ht hentry).1⟩
    exact (mem_folderFiles hseed ht d _).mpr ⟨name, content, hentry, haccepts, hreach, rfl⟩

end Spellings

/-- To remember the same folder again changes nothing. -/
theorem Memory.rememberInput_again (m : Memory) (d : Direction) {file file' : Path}
    (h : folderOf file' = folderOf file) :
    (m.rememberInput d file).rememberInput d file' = m.rememberInput d file := by
  unfold rememberInput
  rw [h]
  cases d <;> rfl

/-- A folder that is expanded can be listed. -/
theorem exists_entries_of_expandInput {t : FileTree} {d : Direction} {folder : Path}
    {files : List Path} (hfolder : t.isFolder folder = true)
    (hfiles : expandInput t d folder = .ok files) :
    ∃ access entries, t.find folder = .ok (.folder access entries) ∧ access.list = true := by
  cases hfind : t.find folder with
  | error e => simp [FileTree.isFolder, hfind] at hfolder
  | ok node =>
    cases node with
    | file content => simp [FileTree.isFolder, hfind, Node.isFolder] at hfolder
    | folder access entries =>
      refine ⟨access, entries, rfl, ?_⟩
      cases hlist : access.list with
      | true => rfl
      | false => simp [expandInput, FileTree.has, hfolder, hfind, FileTree.names, hlist] at hfiles

/-- **The remembered folder is the folder the files came from.** Let a path to a folder, however it is
written, stand for some files, and let the folder of the first of them be remembered. It has the
components of the path. The text that the next prompt is prefilled with leads to the same folder; it
stands for all those files, component by component, and remembering the first file it stands for
changes nothing. It stands for no other files if and only if each of its files would have had a path
short enough under the path as it was written. -/
theorem remembered_folder_has_all_the_files (t : FileTree) (ht : t.root.isProper = true)
    (d : Direction) (folder first : Path) (more : List Path) (hfolder : t.isFolder folder = true)
    (hfiles : expandInput t d folder = .ok (first :: more)) (m : Memory) :
    let remembered := ((m.rememberInput d first).get d).input
    let seed : Path := ⟨fileSeed remembered⟩
    remembered.components = folder.components ∧
      t.find seed = t.find folder ∧
      ∃ first' more', expandInput t d seed = .ok (first' :: more') ∧
        (∀ file ∈ first :: more, ∃ file' ∈ first' :: more', file'.components = file.components) ∧
        (m.rememberInput d first).rememberInput d first' = m.rememberInput d first ∧
        ((first' :: more').map Path.components = (first :: more).map Path.components ↔
          ∀ name, seed.join name ∈ first' :: more' →
            (folder.join name).byteSize < FileTree.byteLimit) := by
  intro remembered seed
  obtain ⟨access, entries, hfind, hlist⟩ := exists_entries_of_expandInput hfolder hfiles
  have hproper : properEntries entries = true := FileTree.isProper_find ht hfind
  have hne := FileTree.text_ne_of_find hfind
  rw [expandInput_of_folder hfind hlist d, Except.ok.injEq] at hfiles
  have hfirst : first ∈ folderFiles t folder (entries.map Prod.fst) d := by
    rw [hfiles]
    exact List.mem_cons_self
  have hfolderOf := folderOf_of_mem_folderFiles hproper hfind hne hfirst
  have hremembered : remembered = folder.bare := by
    show ((m.rememberInput d first).get d).input = folder.bare
    rw [Memory.get_rememberInput, if_pos rfl, hfolderOf]
  have hseed : seed = folder.bare.seed := congrArg Path.seed hremembered
  have hback := find_seed_bare_of_mem hproper hfind hfirst
  obtain ⟨first', more', hfiles'⟩ : ∃ first' more',
      folderFiles t folder.bare.seed (entries.map Prod.fst) d = first' :: more' := by
    obtain ⟨file', hfile', -⟩ := exists_file_of_seed_bare hproper hfind hfirst
    exact List.exists_cons_of_ne_nil (List.ne_nil_of_mem hfile')
  have hfirst' : Memory.folderOf first' = folder.bare := by
    rw [folderOf_of_mem_folderFiles hproper hback folder.bare.text_seed_ne
      (by rw [hfiles']; exact List.mem_cons_self), Path.bare_seed_bare]
  rw [hseed, hremembered, hfind]
  refine ⟨Path.components_bare hne, hback, first', more', ?_, ?_, ?_, ?_⟩
  · rw [expandInput_of_folder hback hlist d, hfiles']
  · rw [← hfiles, ← hfiles']
    exact fun file hfile => exists_file_of_seed_bare hproper hfind hfile
  · exact m.rememberInput_again d (hfirst'.trans hfolderOf.symm)
  · rw [← hfiles, ← hfiles']
    exact components_folderFiles_seed_bare_iff hproper hfind hback

/-- A path that goes up and comes back, with brackets in its name and separators and a full stop behind
it, read from within the folder. -/
theorem remembered_folder_has_all_the_files_with_brackets :
    let entries : List (String × Node) := [("a.txt", .file {}), ("b.lin", .file {})]
    let t : FileTree := ⟨.folder .full [("w [1]", .folder .full entries)], ["w [1]"]⟩
    let folder : Path := ⟨"../w [1]//./"⟩
    let first : Path := ⟨"../w [1]//./a.txt"⟩
    let first' : Path := ⟨"../w [1]/a.txt"⟩
    let m : Memory := .start ⟨"."⟩ ⟨"out"⟩
    (t.root.isProper = true ∧ t.isFolder folder = true ∧
      expandInput t .compile folder = .ok [first]) ∧
    ((m.rememberInput .compile first).get .compile).input = ⟨"../w [1]"⟩ ∧
      expandInput t .compile ⟨"../w [1]/"⟩ = .ok [first'] ∧
      first'.components = first.components ∧
      (m.rememberInput .compile first).rememberInput .compile first' =
        m.rememberInput .compile first := by
  intro entries t folder first first' m
  have hproper : t.root.isProper = true := by decide
  have hfolder : t.isFolder folder = true := by decide
  have hfiles : expandInput t .compile folder = .ok [first] :=
    eq_ok_of_toOption (by decide +kernel)
  have hremembered : ((m.rememberInput .compile first).get .compile).input = ⟨"../w [1]"⟩ := by
    decide
  have hagain : (expandInput t .compile ⟨"../w [1]/"⟩).toOption = some [first'] := by
    decide +kernel
  obtain ⟨-, -, found, more, hexpand, hall, hmemory, -⟩ :=
    remembered_folder_has_all_the_files t hproper .compile folder first [] hfolder hfiles m
  rw [hremembered] at hexpand
  change expandInput t .compile ⟨"../w [1]/"⟩ = .ok (found :: more) at hexpand
  rw [hexpand] at hagain
  cases hagain
  obtain ⟨file, hfile, hsame⟩ := hall first List.mem_cons_self
  rw [List.mem_singleton.mp hfile] at hsame
  exact ⟨⟨hproper, hfolder, hfiles⟩, hremembered, hexpand, hsame, hmemory⟩

/-- Full stops behind a name do not count. -/
theorem Path.bare_dotted {name : String} (hname : isName name = true) (n : Nat) :
    (dotted name n).bare = ⟨name⟩ := by
  obtain ⟨hne, -⟩ := isName_iff.mp hname
  have hblank : dropInsignificant (List.replicate n ['.']) = [] := by
    induction n with
    | zero => rfl
    | succ n ih => rw [List.replicate_succ', dropInsignificant_concat_of_not _ rfl, ih]
  rw [bare_of_pieces (pieces_dotted hname n), hblank, ofPieces, if_neg hne]
  simp [Text.joinWith]

/-- A folder written with full stops behind it stands for one of its two files, since the path of the
other would be too long; the folder remembered for that one stands for both. -/
theorem remembered_folder_has_a_file_more :
    let entries : List (String × Node) := [("a.txt", .file {}), ("abcdefgh.txt", .file {})]
    let t : FileTree := ⟨.folder .full [("d", .folder .full entries)], []⟩
    let folder : Path := .dotted "d" 2043
    let first := folder.join "a.txt"
    let m : Memory := .start ⟨"."⟩ ⟨"out"⟩
    t.isFolder folder = true ∧ expandInput t .compile folder = .ok [first] ∧
      ((m.rememberInput .compile first).get .compile).input = ⟨"d"⟩ ∧
      fileSeed ⟨"d"⟩ = "d/" ∧
      expandInput t .compile ⟨"d/"⟩ = .ok [⟨"d/a.txt"⟩, ⟨"d/abcdefgh.txt"⟩] := by
  intro entries t folder first m
  have hfolder : t.isFolder folder = true := by
    show (treeOfTwoFiles .full).isFolder longSpelling = true
    rw [FileTree.isFolder, find_longSpelling]
    rfl
  have hfolderOf : Memory.folderOf first = ⟨"d"⟩ :=
    (Path.folderOf_join (FileTree.text_ne_of_find find_longSpelling) rfl).trans
      (Path.bare_dotted rfl 2043)
  have hremembered : ((m.rememberInput .compile first).get .compile).input = ⟨"d"⟩ := by
    rw [Memory.get_rememberInput, if_pos rfl, hfolderOf]
  exact ⟨hfolder, expandInput_longSpelling, hremembered, rfl,
    expandInput_plainSpelling (Or.inr rfl)⟩

end BatchCodec
