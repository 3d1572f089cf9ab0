import BatchCodec.Direction
import BatchCodec.Proofs.Routes
/-!
Which paths a direction accepts, read off their text.

The last component of a path is found from the right: behind it there may be separators, each with a
single full stop or nothing behind it, and no more than that (`Path.Trails`). So a path has a file name
exactly when its text ends in that name and such a trail (`Path.fileName?_eq_some_iff`). A name has an
extension exactly when a full stop splits it that has something in front of it and no other full stop
behind it (`Path.extensionOf?_eq_some_iff`). Extensions are compared letter by letter, where only the
letters of ASCII have a second case (`Text.map_toLower_eq_iff`).

Main statement: `accepted_exactly_by_extension`.
-/

namespace BatchCodec

namespace Text

/-! ## Letter case -/

/-- The same character, or one letter of ASCII in both cases. -/
def SameLetter (a b : Char) : Prop :=
  a = b ∨ ('A' ≤ a ∧ a ≤ 'Z' ∧ b.toNat = a.toNat + 32) ∨
    ('A' ≤ b ∧ b ≤ 'Z' ∧ a.toNat = b.toNat + 32)

/-- The same text but for the case of its letters of ASCII. -/
inductive SameButCase : List Char → List Char → Prop
  | nil : SameButCase [] []
  | cons {a b : Char} {as bs : List Char} (first : SameLetter a b) (rest : SameButCase as bs) :
      SameButCase (a :: as) (b :: bs)

theorem toNat_toLower (c : Char) :
    c.toLower.toNat = if 'A' ≤ c ∧ c ≤ 'Z' then c.toNat + 32 else c.toNat := by
  unfold Char.toLower
  split
  · rename_i h
    have hle : c.toNat ≤ 90 := UInt32.le_iff_toNat_le.mp h.2
    rw [if_pos (show 'A' ≤ c ∧ c ≤ 'Z' from h)]
    show (c.val + ('a'.val - 'A'.val)).toNat = c.val.toNat + 32
    rw [UInt32.toNat_add]
    show (c.toNat + 32) % 2 ^ 32 = c.toNat + 32
    omega
  · rename_i h
    rw [if_neg (show ¬('A' ≤ c ∧ c ≤ 'Z') from h)]

theorem toLower_eq_iff {a b : Char} : a.toLower = b.toLower ↔ SameLetter a b := by
  have hA (c : Char) : 'A' ≤ c ↔ 65 ≤ c.toNat := UInt32.le_iff_toNat_le
  have hZ (c : Char) : c ≤ 'Z' ↔ c.toNat ≤ 90 := UInt32.le_iff_toNat_le
  rw [SameLetter, ← Char.toNat_inj, ← Char.toNat_inj, toNat_toLower, toNat_toLower]
  simp only [hA, hZ]
  split <;> split <;> omega

theorem map_toLower_eq_iff {as bs : List Char} :
    as.map Char.toLower = bs.map Char.toLower ↔ SameButCase as bs := by
  constructor
  · intro h
    induction as generalizing bs with
    | nil =>
      rw [List.map_nil, eq_comm, List.map_eq_nil_iff] at h
      rw [h]
      exact .nil
    | cons a as ih =>
      cases bs with
      | nil => cases h
      | cons b bs =>
        rw [List.map_cons, List.map_cons, List.cons.injEq] at h
        exact .cons (toLower_eq_iff.mp h.1) (ih h.2)
  · intro h
    induction h with
    | nil => rfl
    | cons first rest ih => rw [List.map_cons, List.map_cons, toLower_eq_iff.mpr first, ih]

end Text

namespace Path

/-! ## The last component -/

/-- What may stand behind the last component: separators, and a full stop behind any of them. -/
inductive Trails : List Char → Prop
  | nil : Trails []
  | separator {cs : List Char} (rest : Trails cs) : Trails ('/' :: cs)
  | here {cs : List Char} (rest : Trails cs) : Trails ('/' :: '.' :: cs)

/-- The text of the path is something that ends with a separator or is empty, then `n`, then nothing
that stands for a component. -/
def EndsIn (p : Path) (n : List Char) : Prop :=
  ∃ front rear, p.text.toList = front ++ n ++ rear ∧ (front = [] ∨ ∃ cs, front = cs ++ ['/']) ∧
    '/' ∉ n ∧ Trails rear

/-- The pieces of a trail stand for no components. -/
theorem Trails.pieces {rear : List Char} (h : Trails rear) :
    ∃ blank : List (List Char), (∀ piece ∈ blank, Component.ofPiece? piece = none) ∧
      ∀ cs, Text.splitOn '/' (cs ++ rear) = Text.splitOn '/' cs ++ blank := by
  induction h with
  | nil => exact ⟨[], by simp, by simp⟩
  | separator rest ih =>
    obtain ⟨blank, hblank, hsplit⟩ := ih
    refine ⟨[] :: blank, List.forall_mem_cons.mpr ⟨rfl, hblank⟩, ?_⟩
    intro cs
    rw [Text.splitOn_append_sep]
    exact congrArg (_ ++ ·) (hsplit [])
  | here rest ih =>
    obtain ⟨blank, hblank, hsplit⟩ := ih
    refine ⟨['.'] :: blank, List.forall_mem_cons.mpr ⟨rfl, hblank⟩, ?_⟩
    intro cs
    rw [Text.splitOn_append_sep]
    exact congrArg (_ ++ ·) (hsplit ['.'])

theorem trails_of_pieces {blank : List (List Char)}
    (h : ∀ piece ∈ blank, Component.ofPiece? piece = none) :
    Trails (blank.flatMap ('/' :: ·)) := by
  induction blank with
  | nil => exact .nil
  | cons piece blank ih =>
    rw [List.forall_mem_cons] at h
    obtain ⟨hpiece, hblank⟩ := h
    obtain rfl | rfl := Component.ofPiece?_eq_none_iff.mp hpiece
    · exact .separator (ih hblank)
    · exact .here (ih hblank)

theorem endsIn_iff {p : Path} {n : List Char} :
    p.EndsIn n ↔ ∃ before blank, Text.splitOn '/' p.text.toList = before ++ n :: blank ∧
      ∀ piece ∈ blank, Component.ofPiece? piece = none := by
  constructor
  · rintro ⟨front, rear, htext, hfront, hsep, hrear⟩
    obtain ⟨blank, hblank, hsplit⟩ := hrear.pieces
    obtain ⟨before, hbefore⟩ : ∃ before, Text.splitOn '/' (front ++ n) = before ++ [n] := by
      obtain rfl | ⟨cs, rfl⟩ := hfront
      · exact ⟨[], Text.splitOn_of_not_mem hsep⟩
      · refine ⟨Text.splitOn '/' cs, ?_⟩
        rw [List.append_assoc, List.singleton_append, Text.splitOn_append_sep,
          Text.splitOn_of_not_mem hsep]
    refine ⟨before, blank, ?_, hblank⟩
    rw [htext, hsplit, hbefore, List.append_assoc, List.singleton_append]
  · rintro ⟨before, blank, hpieces, hblank⟩
    refine ⟨before.flatMap (· ++ ['/']), blank.flatMap ('/' :: ·), ?_, ?_, ?_,
      trails_of_pieces hblank⟩
    · rw [← Text.joinWith_append_cons, ← hpieces, Text.joinWith_splitOn]
    · obtain rfl | ⟨pieces, piece, rfl⟩ := List.eq_nil_or_concat before
      · exact Or.inl rfl
      · exact Or.inr ⟨pieces.flatMap (· ++ ['/']) ++ piece, by simp⟩
    · have hn : n ∈ Text.splitOn '/' p.text.toList := by rw [hpieces]; simp
      exact Text.not_mem_of_mem_splitOn hn

/-- The root and a leading full stop are no names, so the last name of a path is on its route. -/
theorem getLast?_components_eq_name_iff {p : Path} {n : List Char} :
    p.components.getLast? = some (.name n) ↔ p.route.getLast? = some (.name n) := by
  refine ⟨?_, getLast?_components⟩
  obtain ⟨origin, horigin, hcomponents⟩ := p.components_eq
  rw [hcomponents, List.getLast?_append]
  cases p.route.getLast? with
  | some c => exact id
  | none => obtain rfl | rfl | rfl := horigin <;> nofun

/-- A path has a file name exactly when its text ends in an ordinary name. -/
theorem fileName?_eq_some_iff {p : Path} {n : List Char} :
    p.fileName? = some n ↔ p.EndsIn n ∧ n ≠ [] ∧ n ≠ ['.'] ∧ n ≠ ['.', '.'] := by
  have hlast : p.fileName? = some n ↔ p.components.getLast? = some (.name n) := by
    unfold fileName?
    split <;> simp_all
  rw [hlast, getLast?_components_eq_name_iff, route, List.getLast?_filterMap,
    List.findSome?_eq_some_iff, endsIn_iff]
  -- read from the right, the first piece that stands for anything is the name
  constructor
  · rintro ⟨blank, piece, before, hpieces, hpiece, hblank⟩
    obtain ⟨rfl, hname⟩ := Component.ofPiece?_eq_name_iff.mp hpiece
    refine ⟨⟨before.reverse, blank.reverse, ?_, ?_⟩, hname⟩
    · rw [← List.reverse_reverse (Text.splitOn '/' p.text.toList), hpieces]
      simp
    · exact fun q hq => hblank q (List.mem_reverse.mp hq)
  · rintro ⟨⟨before, blank, hpieces, hblank⟩, hname⟩
    refine ⟨blank.reverse, n, before.reverse, ?_,
      Component.ofPiece?_eq_name_iff.mpr ⟨rfl, hname⟩, ?_⟩
    · rw [hpieces]
      simp
    · exact fun q hq => hblank q (List.mem_reverse.mp hq)

/-- A name with something on both sides of a full stop is an ordinary one. -/
theorem fileName?_of_endsIn {p : Path} {stem ext : List Char} (hstem : stem ≠ []) (hext : ext ≠ [])
    (h : p.EndsIn (stem ++ '.' :: ext)) : p.fileName? = some (stem ++ '.' :: ext) := by
  have hlength : 2 < (stem ++ '.' :: ext).length := by
    have hfront := List.length_pos_iff.mpr hstem
    have hrear := List.length_pos_iff.mpr hext
    rw [List.length_append, List.length_cons]
    omega
  have hlonger (piece : List Char) (hpiece : piece.length ≤ 2) : stem ++ '.' :: ext ≠ piece := by
    intro heq
    rw [heq] at hlength
    omega
  rw [fileName?_eq_some_iff]
  exact ⟨h, hlonger [] (by decide), hlonger ['.'] (by decide), hlonger ['.', '.'] (by decide)⟩

/-! ## Extensions -/

theorem extensionOf?_of_not_mem {n : List Char} (h : '.' ∉ n) : extensionOf? n = none := by
  rw [extensionOf?, Text.splitOn_of_not_mem h]
  rfl

/-- The last full stop of a name splits it, unless nothing stands in front of it. -/
theorem extensionOf?_append {stem ext : List Char} (h : '.' ∉ ext) :
    extensionOf? (stem ++ '.' :: ext) = if stem = [] then none else some ext := by
  have hone : Text.splitOn '.' stem = [[]] → stem = [] := by
    intro hpieces
    rw [← Text.joinWith_splitOn '.' stem, hpieces]
    rfl
  rw [extensionOf?, Text.splitOn_append_sep, Text.splitOn_of_not_mem h, List.reverse_append]
  by_cases hstem : stem = []
  · rw [if_pos hstem, hstem]
    rfl
  · rw [if_neg hstem]
    -- the pieces of the stem are at least one, and not an empty one alone
    split
    · rename_i hpieces
      rw [List.reverse_singleton, List.singleton_append, List.cons.injEq,
        List.reverse_eq_nil_iff] at hpieces
      exact absurd hpieces.2 (Text.splitOn_ne_nil '.' stem)
    · rename_i hpieces
      rw [List.reverse_singleton, List.singleton_append, List.cons.injEq,
        List.reverse_eq_iff] at hpieces
      exact absurd (hone hpieces.2) hstem
    · rename_i hpieces
      rw [List.reverse_singleton, List.singleton_append, List.cons.injEq] at hpieces
      rw [hpieces.1]
    · rename_i hpieces
      cases hpieces

theorem extensionOf?_eq_some_iff {n ext : List Char} :
    extensionOf? n = some ext ↔ ∃ stem, n = stem ++ '.' :: ext ∧ stem ≠ [] ∧ '.' ∉ ext := by
  constructor
  · intro h
    by_cases hdot : '.' ∈ n
    · obtain ⟨rear, front, hn, hrear⟩ := List.eq_append_cons_of_mem (List.mem_reverse.mpr hdot)
      have hsplit : n = front.reverse ++ '.' :: rear.reverse := by
        rw [← List.reverse_reverse n, hn]
        simp
      have hrear' : '.' ∉ rear.reverse := mt List.mem_reverse.mp hrear
      rw [hsplit, extensionOf?_append hrear'] at h
      split at h
      · cases h
      · rename_i hstem
        cases h
        exact ⟨front.reverse, hsplit, hstem, hrear'⟩
    · rw [extensionOf?_of_not_mem hdot] at h
      cases h
  · rintro ⟨stem, rfl, hstem, hext⟩
    rw [extensionOf?_append hext, if_neg hstem]

end Path

/-! ## What a direction accepts -/

theorem Direction.accepts_iff {d : Direction} {p : Path} :
    d.accepts p = true ↔ ∃ n ext, p.fileName? = some n ∧ Path.extensionOf? n = some ext ∧
      ∃ e ∈ d.extensions, Text.SameButCase e.toList ext := by
  unfold accepts Path.extension?
  cases p.fileName? with
  | none => simp
  | some n =>
    cases hext : Path.extensionOf? n with
    | none => simp [hext]
    | some ext => simp [hext, Text.map_toLower_eq_iff]

/-- The extensions of a direction are not empty and have no full stop, in either case. -/
theorem Direction.plain_of_mem_extensions {d : Direction} {e : String} (h : e ∈ d.extensions)
    {ext : List Char} (hext : Text.SameButCase e.toList ext) : ext ≠ [] ∧ '.' ∉ ext := by
  have hplain : ∀ e ∈ d.extensions,
      e.toList.map Char.toLower ≠ [] ∧ '.' ∉ e.toList.map Char.toLower := by
    cases d <;> decide
  rw [← Text.map_toLower_eq_iff] at hext
  have he := hplain e h
  rw [hext] at he
  refine ⟨fun hempty => he.1 (by rw [hempty]; rfl), fun hdot => he.2 ?_⟩
  show Char.toLower '.' ∈ ext.map Char.toLower
  exact List.mem_map_of_mem hdot

/-- A path has one extension, and no two directions have one in common. -/
theorem Direction.eq_of_accepts {d d' : Direction} {p : Path} (h : d.accepts p = true)
    (h' : d'.accepts p = true) : d = d' := by
  obtain ⟨n, ext, hname, hext, e, he, hcase⟩ := accepts_iff.mp h
  obtain ⟨n', ext', hname', hext', e', he', hcase'⟩ := accepts_iff.mp h'
  obtain rfl : n = n' := Option.some.inj (hname.symm.trans hname')
  obtain rfl : ext = ext' := Option.some.inj (hext.symm.trans hext')
  rw [← Text.map_toLower_eq_iff] at hcase hcase'
  have hapart : ∀ e ∈ d.extensions, ∀ e' ∈ d'.extensions,
      e.toList.map Char.toLower = e'.toList.map Char.toLower → d = d' := by
    cases d <;> cases d' <;> decide
  exact hapart e he e' he' (hcase.trans hcase'.symm)

/-- **A direction accepts by the extension of the last component.** A path is accepted exactly when,
up to separators and single full stops at its end, its last piece is something that is not empty, a
full stop and one of the extensions of the direction, in which the case of letters of ASCII makes no
difference; and no path is accepted by both directions. -/
theorem accepted_exactly_by_extension (d : Direction) (p : Path) :
    (d.accepts p = true ↔ ∃ stem ext, p.EndsIn (stem ++ '.' :: ext) ∧ stem ≠ [] ∧
      ∃ e ∈ d.extensions, Text.SameButCase e.toList ext) ∧
    ¬(Direction.compile.accepts p = true ∧ Direction.decompile.accepts p = true) := by
  constructor
  · rw [Direction.accepts_iff]
    constructor
    · rintro ⟨n, ext, hname, hext, hallowed⟩
      obtain ⟨stem, rfl, hstem, -⟩ := Path.extensionOf?_eq_some_iff.mp hext
      exact ⟨stem, ext, (Path.fileName?_eq_some_iff.mp hname).1, hstem, hallowed⟩
    · rintro ⟨stem, ext, hends, hstem, e, he, hcase⟩
      obtain ⟨hne, hdot⟩ := Direction.plain_of_mem_extensions he hcase
      have hname := Path.fileName?_of_endsIn hstem hne hends
      have hext := Path.extensionOf?_eq_some_iff.mpr ⟨stem, rfl, hstem, hdot⟩
      exact ⟨stem ++ '.' :: ext, ext, hname, hext, e, he, hcase⟩
  · intro ⟨hcompile, hdecompile⟩
    cases Direction.eq_of_accepts hcompile hdecompile

example : ["..txt", ".a.txt", "a/b.TXT//./.", ".txt", "a/..", "a.txt/..", "."].map
    (fun text => Direction.compile.accepts ⟨text⟩) =
      [true, true, true, false, false, false, false] := by decide

end BatchCodec
