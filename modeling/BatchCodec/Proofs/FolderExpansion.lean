import BatchCodec.Expansion
import BatchCodec.Proofs.PathOrder
import BatchCodec.Proofs.ProperTrees
/-!
What a folder stands for.

A folder lists what it holds in no particular order. Two trees of which one lists its folders in
another order (`FileTree.Relisted`) lead the same paths to the same kinds of nodes
(`FileTree.Relisted.find_cases`), so the same files are accepted (`mem_folderFiles`); and since the
paths of the entries of one folder differ in their components (`pairwise_join`), sorting puts them into
one order only.

Listing a folder takes less than looking up what is in it. A name that is listed but out of reach is
taken for no file and passed over without a word, so a folder stands for its accepted files exactly if
all of them are within reach (`folder_stands_for_the_accepted_files_within_reach`). One is not if the
folder can be read and not searched, or if the folder is written with so many characters that the path
of the file is too long (`accepted_file_out_of_reach_is_passed_over`).
-/

namespace BatchCodec

/-! ## Trees that list their folders in another order -/

/-- Two nodes that differ in nothing but the order in which their folders list what they hold. -/
inductive Node.Relisted : Node → Node → Prop
  | file (content : FileContent) : Relisted (.file content) (.file content)
  | folder (access : Access) {entries entries' : List (String × Node)}
      (names : (entries.map Prod.fst).Perm (entries'.map Prod.fst))
      (children : ∀ name child child', entries.lookup name = some child →
        entries'.lookup name = some child' → Relisted child child') :
      Relisted (.folder access entries) (.folder access entries')

/-- Two trees that differ in nothing but the order in which their folders list what they hold. -/
structure FileTree.Relisted (t t' : FileTree) : Prop where
  root : t.root.Relisted t'.root
  current : t'.current = t.current

theorem isSome_lookup_iff {entries : List (String × Node)} {name : String} :
    (entries.lookup name).isSome = true ↔ name ∈ entries.map Prod.fst := by
  rw [List.lookup_isSome_iff, List.mem_map]
  constructor
  · rintro ⟨entry, hentry, hname⟩
    exact ⟨entry, hentry, (beq_iff_eq.mp hname).symm⟩
  · rintro ⟨entry, hentry, hname⟩
    exact ⟨entry, hentry, beq_iff_eq.mpr hname.symm⟩

namespace Node.Relisted

theorem isFolder_eq {node node' : Node} (h : node.Relisted node') :
    node'.isFolder = node.isFolder := by
  cases h <;> rfl

theorem isSome_lookup {entries entries' : List (String × Node)}
    (names : (entries.map Prod.fst).Perm (entries'.map Prod.fst)) (name : String) :
    (entries'.lookup name).isSome = (entries.lookup name).isSome := by
  rw [Bool.eq_iff_iff, isSome_lookup_iff, isSome_lookup_iff, names.mem_iff]

theorem rel_at? {node node' : Node} (h : node.Relisted node') (place : List String) :
    Option.Rel Relisted (node.at? place) (node'.at? place) := by
  induction place generalizing node node' with
  | nil => exact .some h
  | cons name place ih =>
    cases h with
    | file content => exact .none
    | @folder access entries entries' names children =>
      have hsome := isSome_lookup names name
      simp only [Node.at?]
      cases hchild : entries.lookup name with
      | none =>
        rw [hchild, Option.isSome_none, Option.isSome_eq_false_iff, Option.isNone_iff_eq_none] at hsome
        rw [hsome]
        exact .none
      | some child =>
        rw [hchild] at hsome
        obtain ⟨child', hchild'⟩ := Option.isSome_iff_exists.mp hsome
        rw [hchild']
        exact ih (children name child child' hchild hchild')

end Node.Relisted

namespace FileTree.Relisted

variable {t t' : FileTree} (h : t.Relisted t')
include h

theorem step_eq (place : List String) (piece : List Char) :
    t'.step place piece = t.step place piece := by
  have hat := h.root.rel_at? place
  unfold step
  revert hat
  generalize t.root.at? place = node
  generalize t'.root.at? place = node'
  rintro (hnode | _)
  · cases hnode with
    | file content => rfl
    | folder access names children =>
      simp only [Node.Relisted.isSome_lookup names]
  · rfl

theorem steps_eq (place : List String) (pieces : List (List Char)) :
    t'.steps place pieces = t.steps place pieces := by
  induction pieces generalizing place with
  | nil => rfl
  | cons piece pieces ih =>
    simp only [steps, h.step_eq]
    cases t.step place piece with
    | ok next => exact ih next
    | error e => rfl

theorem locate_eq (p : Path) : t'.locate p = t.locate p := by
  unfold locate
  simp only [h.steps_eq, h.current]

/-- A path leads nowhere in both trees, or to nodes that list their folders differently. -/
theorem find_cases (p : Path) :
    (∃ e, t.find p = .error e ∧ t'.find p = .error e) ∨
      ∃ node node', t.find p = .ok node ∧ t'.find p = .ok node' ∧ node.Relisted node' := by
  unfold find
  rw [h.locate_eq]
  cases t.locate p with
  | error e => exact Or.inl ⟨e, rfl, rfl⟩
  | ok place =>
    have hat := h.root.rel_at? place
    dsimp only
    revert hat
    generalize t.root.at? place = node
    generalize t'.root.at? place = node'
    rintro (hnode | _)
    · exact Or.inr ⟨_, _, rfl, rfl, hnode⟩
    · exact Or.inl ⟨_, rfl, rfl⟩

theorem isFile_eq (p : Path) : t'.isFile p = t.isFile p := by
  unfold isFile
  obtain ⟨e, hfind, hfind'⟩ | ⟨node, node', hfind, hfind', hnode⟩ := h.find_cases p
  · rw [hfind, hfind']
  · simp only [hfind, hfind', hnode.isFolder_eq]

end FileTree.Relisted

/-! ## What a folder stands for -/

theorem accepts_join (d : Direction) (folder : Path) {name : String}
    (h : Path.isName name = true) : d.accepts (folder.join name) = d.accepts ⟨name⟩ := by
  have hlast := folder.getLast?_components_join h
  have hlast' : (⟨name⟩ : Path).components.getLast? = some (.name name.toList) := by
    apply Path.getLast?_components
    rw [Path.route_of_isName h]
    rfl
  simp only [Direction.accepts, Path.extension?, Path.fileName?, hlast, hlast']

/-- A folder that can be listed is never taken for a pattern. -/
theorem expandInput_of_folder {t : FileTree} {raw : Path} {access : Access}
    {entries : List (String × Node)} (h : t.find raw = .ok (.folder access entries))
    (hlist : access.list = true) (d : Direction) :
    expandInput t d raw = .ok (folderFiles t raw (entries.map Prod.fst) d) := by
  have hhas : t.has raw = true := by rw [FileTree.has, h]
  have hfolder : t.isFolder raw = true := by rw [FileTree.isFolder, h]; rfl
  have hnames : t.names raw = .ok (entries.map Prod.fst) := by
    rw [FileTree.names, h]
    exact if_pos hlist
  simp [expandInput, hhas, hfolder, hnames]

section Folder

variable {t : FileTree} {raw : Path} {access : Access} {entries : List (String × Node)}

theorem mem_folderFiles (h : t.find raw = .ok (.folder access entries))
    (hproper : properEntries entries = true) (d : Direction) (p : Path) :
    p ∈ folderFiles t raw (entries.map Prod.fst) d ↔
      ∃ name content, (name, Node.file content) ∈ entries ∧ d.accepts ⟨name⟩ = true ∧
        access.Reaches raw name ∧ p = raw.join name := by
  unfold folderFiles
  rw [Path.mem_sort, List.mem_filter, List.map_map, List.mem_map]
  constructor
  · rintro ⟨⟨⟨name, node⟩, hmem, rfl⟩, hp⟩
    obtain ⟨hname, -, hlookup⟩ := proper_of_mem hproper hmem
    rw [Bool.and_eq_true, Function.comp_apply, FileTree.isFile_join_iff h hname hlookup,
      accepts_join d raw hname] at hp
    obtain ⟨⟨hfile, hreach⟩, haccepts⟩ := hp
    cases node with
    | file content => exact ⟨name, content, hmem, haccepts, hreach, rfl⟩
    | folder access more => cases hfile
  · rintro ⟨name, content, hmem, haccepts, hreach, rfl⟩
    obtain ⟨hname, -, hlookup⟩ := proper_of_mem hproper hmem
    refine ⟨⟨_, hmem, rfl⟩, ?_⟩
    rw [Bool.and_eq_true, FileTree.isFile_join_iff h hname hlookup, accepts_join d raw hname]
    exact ⟨⟨rfl, hreach⟩, haccepts⟩

/-- The paths of two entries of a folder have the same components only if the names are the same. -/
theorem eq_of_components_join {first second : String} (hfirst : Path.isName first = true)
    (hsecond : Path.isName second = true)
    (h : (raw.join first).components = (raw.join second).components) : first = second := by
  have hroute := Path.route_eq_of_components_eq h
  rw [Path.route_join, Path.route_join, Path.route_of_isName hfirst,
    Path.route_of_isName hsecond] at hroute
  simpa [String.toList_inj] using hroute

theorem pairwise_join (hproper : properEntries entries = true) :
    ((entries.map Prod.fst).map raw.join).Pairwise fun p q => p.components ≠ q.components := by
  rw [List.pairwise_map]
  apply List.Pairwise.imp_of_mem _ (nodup_names hproper)
  intro first second hfirst hsecond hne hsame
  exact hne (eq_of_components_join (isName_of_mem hproper hfirst) (isName_of_mem hproper hsecond)
    hsame)

/-- The order in which the names are listed makes no difference. -/
theorem folderFiles_relisted {t' : FileTree} (h : t.Relisted t')
    (hproper : properEntries entries = true) {names : List String}
    (hnames : (entries.map Prod.fst).Perm names) (d : Direction) :
    folderFiles t' raw names d = folderFiles t raw (entries.map Prod.fst) d := by
  unfold folderFiles
  simp only [h.isFile_eq]
  symm
  apply Path.sort_eq_of_perm ((hnames.map raw.join).filter _)
  intro p hp q hq hsame
  obtain ⟨first, hfirst, rfl⟩ := List.mem_map.mp (List.mem_filter.mp hp).1
  obtain ⟨second, hsecond, rfl⟩ := List.mem_map.mp (List.mem_filter.mp hq).1
  rw [eq_of_components_join (isName_of_mem hproper hfirst) (isName_of_mem hproper hsecond) hsame]

end Folder

/-- **A folder stands for its accepted files within reach.** Let a path lead to a folder that can be
listed, whatever characters it is written with. It is expanded to the paths of those names in the
folder that belong to files, not folders, that the direction accepts and that are within reach, each of
them once, in strictly ascending order; and to the same list in whatever order folders list what they
hold. These are all accepted files of the folder if and only if each of those is within reach. -/
theorem folder_stands_for_the_accepted_files_within_reach (t : FileTree)
    (ht : t.root.isProper = true) (raw : Path) (access : Access) (entries : List (String × Node))
    (hraw : t.find raw = .ok (.folder access entries)) (hlist : access.list = true)
    (d : Direction) :
    ∃ files, expandInput t d raw = .ok files ∧
      (∀ p, p ∈ files ↔ ∃ name content, (name, Node.file content) ∈ entries ∧
        d.accepts ⟨name⟩ = true ∧ access.Reaches raw name ∧ p = raw.join name) ∧
      files.Nodup ∧ files.Pairwise Path.Before ∧
      (∀ t', t.Relisted t' → expandInput t' d raw = .ok files) ∧
      ((∀ p, p ∈ files ↔ ∃ name content, (name, Node.file content) ∈ entries ∧
          d.accepts ⟨name⟩ = true ∧ p = raw.join name) ↔
        ∀ name content, (name, Node.file content) ∈ entries → d.accepts ⟨name⟩ = true →
          access.Reaches raw name) := by
  have hproper : properEntries entries = true := FileTree.isProper_find ht hraw
  have hmem := mem_folderFiles hraw hproper d
  have hascending : (folderFiles t raw (entries.map Prod.fst) d).Pairwise Path.Before :=
    Path.ascending_sort_iff.mpr ((pairwise_join hproper).filter _)
  refine ⟨folderFiles t raw (entries.map Prod.fst) d, expandInput_of_folder hraw hlist d, hmem, ?_,
    hascending, ?_, ?_⟩
  · exact hascending.imp fun hbefore hsame => hbefore.components_ne (congrArg _ hsame)
  · intro t' h
    obtain ⟨e, hfind, -⟩ | ⟨node, node', hfind, hfind', hnode⟩ := h.find_cases raw
    · rw [hraw] at hfind
      cases hfind
    · rw [hraw] at hfind
      cases hfind
      cases hnode with
      | folder access names children =>
        rw [expandInput_of_folder hfind' hlist d, folderFiles_relisted h hproper names]
  · constructor
    · intro hall name content hentry haccepts
      obtain ⟨name', content', hentry', -, hreach, hjoin⟩ :=
        (hmem _).mp ((hall (raw.join name)).mpr ⟨name, content, hentry, haccepts, rfl⟩)
      -- the file that is listed under this path is the entry itself
      have hname := (proper_of_mem hproper hentry).1
      have hname' := (proper_of_mem hproper hentry').1
      rwa [eq_of_components_join hname hname' (congrArg Path.components hjoin)]
    · intro hreach p
      rw [hmem]
      constructor
      · rintro ⟨name, content, hentry, haccepts, -, rfl⟩
        exact ⟨name, content, hentry, haccepts, rfl⟩
      · rintro ⟨name, content, hentry, haccepts, rfl⟩
        exact ⟨name, content, hentry, haccepts, hreach name content hentry haccepts, rfl⟩

/-- A folder with brackets in its name and a separator behind it, listed in two orders: a folder, a
file of the other direction and a file accepted in spite of its letter case. -/
theorem folder_stands_for_the_accepted_files_within_reach_with_brackets :
    let entries : List (String × Node) :=
      [("b.txt", .folder .full []), ("c.lin", .file {}), ("a.TXT", .file {})]
    let t : FileTree := ⟨.folder .full [("e [1]", .folder .full entries)], []⟩
    let t' : FileTree := ⟨.folder .full [("e [1]", .folder .full entries.reverse)], []⟩
    let raw : Path := ⟨"e [1]/"⟩
    (t.root.isProper = true ∧ t.find raw = .ok (.folder .full entries) ∧ t.Relisted t') ∧
    expandInput t .compile raw = .ok [⟨"e [1]/a.TXT"⟩] ∧
      expandInput t' .compile raw = .ok [⟨"e [1]/a.TXT"⟩] := by
  intro entries t t' raw
  have hproper : t.root.isProper = true := by decide
  have hplace : (t.locate raw).toOption = some ["e [1]"] := by decide
  have hraw : t.find raw = .ok (.folder .full entries) :=
    FileTree.find_eq_ok (eq_ok_of_toOption hplace) rfl
  have hempty : (Node.folder .full []).Relisted (.folder .full []) :=
    .folder .full (.refl _) (fun _ _ _ h => by cases h)
  have hentries : (Node.folder .full entries).Relisted (.folder .full entries.reverse) := by
    refine .folder .full (by rw [List.map_reverse]; exact (List.reverse_perm _).symm) ?_
    intro name child child' hchild hchild'
    have hmem := mem_of_lookup hchild
    simp only [entries, List.mem_cons, Prod.mk.injEq, List.not_mem_nil, or_false] at hmem
    obtain ⟨rfl, rfl⟩ | ⟨rfl, rfl⟩ | ⟨rfl, rfl⟩ := hmem
    · cases hchild'
      exact hempty
    · cases hchild'
      exact .file _
    · cases hchild'
      exact .file _
  have hrelisted : t.Relisted t' := by
    refine ⟨.folder .full (.refl _) ?_, rfl⟩
    intro name child child' hchild hchild'
    have hmem := mem_of_lookup hchild
    simp only [List.mem_cons, Prod.mk.injEq, List.not_mem_nil, or_false] at hmem
    obtain ⟨rfl, rfl⟩ := hmem
    cases hchild'
    exact hentries
  obtain ⟨files, hexpand, -, -, -, hsame, -⟩ :=
    folder_stands_for_the_accepted_files_within_reach t hproper raw .full entries hraw rfl .compile
  have hfiles : (expandInput t .compile raw).toOption = some [⟨"e [1]/a.TXT"⟩] := by decide +kernel
  rw [hexpand] at hfiles
  cases hfiles
  exact ⟨⟨hproper, hraw, hrelisted⟩, hexpand, hsame t' hrelisted⟩

/-! ## Files out of reach -/

/-- The path of an entry of the current folder with `n` full stops behind it, which lead nowhere. -/
def Path.dotted (name : String) (n : Nat) : Path :=
  ⟨String.ofList (Text.joinWith '/' (name.toList :: List.replicate n ['.']))⟩

section Dotted

variable {name : String}

theorem Path.toList_dotted (n : Nat) : (dotted name n).text.toList =
    name.toList ++ (List.replicate n ['.']).flatMap ('/' :: ·) := by
  rw [dotted, String.toList_ofList, Text.joinWith_cons]

theorem Path.byteSize_dotted (n : Nat) :
    (dotted name n).byteSize = Text.byteSize name.toList + 2 * n := by
  have hdots : Text.byteSize ((List.replicate n ['.']).flatMap ('/' :: ·)) = 2 * n := by
    induction n with
    | zero => rfl
    | succ n ih =>
      rw [List.replicate_succ, List.flatMap_cons, Text.byteSize_append, ih]
      show 2 + 2 * n = _
      omega
  rw [byteSize, toList_dotted, Text.byteSize_append, hdots]

variable (hname : Path.isName name = true) (n : Nat)
include hname

theorem Path.pieces_dotted : Text.splitOn '/' (dotted name n).text.toList =
    name.toList :: List.replicate n ['.'] := by
  obtain ⟨-, -, -, hsep, -⟩ := isName_iff.mp hname
  rw [dotted, String.toList_ofList, Text.splitOn_joinWith (List.cons_ne_nil _ _)]
  apply Text.flatMap_splitOn_of_not_mem
  rw [List.forall_mem_cons]
  refine ⟨hsep, fun piece hpiece => ?_⟩
  rw [(List.mem_replicate.mp hpiece).2]
  decide

theorem Path.byteSize_join_dotted (file : String) :
    ((dotted name n).join file).byteSize =
      (dotted name n).byteSize + 1 + Text.byteSize file.toList := by
  obtain ⟨hne, -, -, -, -⟩ := isName_iff.mp hname
  have hslash : Text.byteSize ('/' :: file.toList) = 1 + Text.byteSize file.toList := rfl
  obtain ⟨hempty, -⟩ | ⟨cs, htext, -⟩ | hjoin := (dotted name n).join_cases file
  · have htext : (dotted name n).text.toList = _ := toList_dotted n
    rw [hempty] at htext
    exact absurd (List.append_eq_nil_iff.mp htext.symm).1 hne
  · -- the last piece would be empty
    have hpieces := pieces_dotted hname n
    rw [htext, Text.splitOn_append_sep] at hpieces
    have hlast : ([] : List Char) ∈ name.toList :: List.replicate n ['.'] := by
      rw [← hpieces]
      exact List.mem_append_right _ List.mem_cons_self
    simp [hne.symm] at hlast
  · rw [byteSize, hjoin, Text.byteSize_append, hslash, byteSize, Nat.add_assoc]

/-- Full stops behind the path of a folder that can be searched lead nowhere else. -/
theorem FileTree.find_dotted {t : FileTree} {access : Access} {entries : List (String × Node)}
    (h : t.find ⟨name⟩ = .ok (.folder access entries)) (hsearch : access.search = true)
    (hsize : (Path.dotted name n).byteSize < byteLimit) :
    t.find (Path.dotted name n) = .ok (.folder access entries) := by
  obtain ⟨hne, -, -, hsep, hnul⟩ := Path.isName_iff.mp hname
  obtain ⟨place, hplace, hat⟩ := exists_place_of_find h
  have hstay : t.steps place (List.replicate n ['.']) = .ok place := by
    clear hsize
    induction n with
    | zero => rfl
    | succ n ih => simp [List.replicate_succ, steps, step, hat, hsearch, ih]
  have hlocate : ∀ k, (Path.dotted name k).byteSize < byteLimit →
      t.locate (Path.dotted name k) =
        t.steps t.current (name.toList :: List.replicate k ['.']) := by
    intro k hk
    have htext : (Path.dotted name k).text.toList = _ := Path.toList_dotted k
    have hhead : (Path.dotted name k).text.toList.head? ≠ some '/' := by
      rw [htext, List.head?_append, Option.or_of_isSome (by simpa using hne)]
      exact fun hhead => hsep (List.mem_of_head? hhead)
    rw [locate_eq_steps (by simp [htext, hnul]) (by simp [htext, hne]) hk, trail, if_neg hhead,
      Path.pieces_dotted hname]
  -- without full stops it is the path of the entry itself
  have hbare : Path.dotted name 0 = ⟨name⟩ := by
    simp [Path.dotted, Text.joinWith]
  have hfirst := hlocate 0 (by rw [hbare]; exact (of_locate_eq_ok hplace).2.2)
  rw [hbare, hplace] at hfirst
  have hsteps : t.steps t.current (name.toList :: List.replicate n ['.']) = .ok place := by
    change _ = t.steps t.current [name.toList] at hfirst
    rw [steps_singleton] at hfirst
    rw [steps, ← hfirst]
    exact hstay
  simp only [find, hlocate n hsize, hsteps, hat]

end Dotted

/-! A folder `d` with two files, written so that the path of one of them is too long. -/

def twoFiles : List (String × Node) := [("a.txt", .file {}), ("abcdefgh.txt", .file {})]

def treeOfTwoFiles (access : Access) : FileTree :=
  ⟨.folder .full [("d", .folder access twoFiles)], []⟩

def longSpelling : Path := .dotted "d" 2043

theorem find_d (access : Access) :
    (treeOfTwoFiles access).find ⟨"d"⟩ = .ok (.folder access twoFiles) := by
  have hplace : ((treeOfTwoFiles access).locate ⟨"d"⟩).toOption = some ["d"] := by
    obtain ⟨list, search⟩ := access
    cases list <;> cases search <;> decide
  exact FileTree.find_eq_ok (eq_ok_of_toOption hplace) rfl

theorem find_longSpelling :
    (treeOfTwoFiles .full).find longSpelling = .ok (.folder .full twoFiles) :=
  FileTree.find_dotted rfl 2043 (find_d .full) rfl (by rw [Path.byteSize_dotted]; decide)

theorem expandInput_longSpelling :
    expandInput (treeOfTwoFiles .full) .compile longSpelling =
      .ok [longSpelling.join "a.txt"] := by
  have hsize : ∀ file, (longSpelling.join file).byteSize = 4088 + Text.byteSize file.toList := by
    intro file
    rw [longSpelling, Path.byteSize_join_dotted rfl, Path.byteSize_dotted]
    rfl
  have hshort : (treeOfTwoFiles .full).isFile (longSpelling.join "a.txt") = true :=
    (FileTree.isFile_join_iff find_longSpelling rfl rfl).mpr ⟨rfl, rfl, by rw [hsize]; decide⟩
  have hlong : (treeOfTwoFiles .full).isFile (longSpelling.join "abcdefgh.txt") = false :=
    FileTree.isFile_of_byteLimit_le (by rw [hsize]; decide)
  have haccepts : Direction.compile.accepts (longSpelling.join "a.txt") = true := by
    rw [accepts_join _ _ rfl]
    decide
  rw [expandInput_of_folder find_longSpelling rfl, folderFiles]
  simp [twoFiles, hshort, hlong, haccepts, Path.sort]

/-- Under its plain name, with or without a separator behind it, the folder stands for both files. -/
theorem expandInput_plainSpelling {raw : Path} (hraw : raw = ⟨"d"⟩ ∨ raw = ⟨"d/"⟩) :
    expandInput (treeOfTwoFiles .full) .compile raw = .ok [⟨"d/a.txt"⟩, ⟨"d/abcdefgh.txt"⟩] := by
  have hplace : ((treeOfTwoFiles .full).locate raw).toOption = some ["d"] := by
    obtain rfl | rfl := hraw <;> decide
  have hfind : (treeOfTwoFiles .full).find raw = .ok (.folder .full twoFiles) :=
    FileTree.find_eq_ok (eq_ok_of_toOption hplace) rfl
  have hkept : ((twoFiles.map Prod.fst).map raw.join).filter
      (fun p => (treeOfTwoFiles .full).isFile p && Direction.compile.accepts p) =
        [⟨"d/a.txt"⟩, ⟨"d/abcdefgh.txt"⟩] := by
    obtain rfl | rfl := hraw <;> decide
  rw [expandInput_of_folder hfind rfl, folderFiles, hkept]
  exact congrArg _ (List.mergeSort_of_pairwise (by decide))

/-- An accepted file is passed over where its path is too long, and where its folder can be listed and
not searched. -/
theorem accepted_file_out_of_reach_is_passed_over :
    let entries : List (String × Node) := [("a.txt", .file {}), ("abcdefgh.txt", .file {})]
    let t : FileTree := ⟨.folder .full [("d", .folder .full entries)], []⟩
    let t' : FileTree := ⟨.folder .full [("d", .folder ⟨true, false⟩ entries)], []⟩
    let raw : Path := .dotted "d" 2043
    t.find raw = .ok (.folder .full entries) ∧
      expandInput t .compile raw = .ok [raw.join "a.txt"] ∧
      expandInput t .compile ⟨"d"⟩ = .ok [⟨"d/a.txt"⟩, ⟨"d/abcdefgh.txt"⟩] ∧
      t'.find ⟨"d"⟩ = .ok (.folder ⟨true, false⟩ entries) ∧
      expandInput t' .compile ⟨"d"⟩ = .ok [] :=
  ⟨find_longSpelling, expandInput_longSpelling, expandInput_plainSpelling (Or.inl rfl),
    find_d ⟨true, false⟩, eq_ok_of_toOption (by decide +kernel)⟩

end BatchCodec
