import BatchCodec.FileTree
import BatchCodec.Proofs.Routes
/-!
Proper file trees.

In a proper tree no folder has two entries of one name, and every name is one that a path can go
through: not empty, not `.` or `..`, and without a separator. Trees kept by a file system are proper.
Then an entry listed in a folder is the one that its name finds (`proper_of_mem`), and every node that
a path leads to is proper itself (`FileTree.isProper_find`).

A path is looked up piece by piece, so a name joined to the path of a folder is looked up by one more
step from where that path leads (`FileTree.locate_join`), however the path is written, and leads to the
entry of that name (`FileTree.find_join`). That is so if the entry is within reach (`Access.Reaches`):
the folder can be searched, and the path has not become too long by the name. Otherwise the entry is
taken for no file, although it is one (`FileTree.isFile_join_iff`).
-/

namespace BatchCodec

theorem eq_ok_of_toOption {ε α : Type} {x : Except ε α} {a : α} (h : x.toOption = some a) :
    x = .ok a := by
  cases x with
  | error e => cases h
  | ok b => exact congrArg _ (Option.some.inj h)

mutual

/-- Whether every folder of a node has distinct entries with proper names. -/
def Node.isProper : Node → Bool
  | .file _ => true
  | .folder _ entries => properEntries entries

/-- Whether entries have distinct proper names and hold proper nodes. -/
def properEntries : List (String × Node) → Bool
  | [] => true
  | (name, node) :: rest =>
    Path.isName name && !(rest.map Prod.fst).contains name && node.isProper && properEntries rest

end

theorem properEntries_cons {name : String} {node : Node} {rest : List (String × Node)} :
    properEntries ((name, node) :: rest) = true ↔
      Path.isName name = true ∧ name ∉ rest.map Prod.fst ∧ node.isProper = true ∧
        properEntries rest = true := by
  simp [properEntries, and_assoc]

theorem proper_of_mem {entries : List (String × Node)} (h : properEntries entries = true)
    {name : String} {node : Node} (hmem : (name, node) ∈ entries) :
    Path.isName name = true ∧ node.isProper = true ∧ entries.lookup name = some node := by
  induction entries with
  | nil => cases hmem
  | cons entry rest ih =>
    obtain ⟨first, child⟩ := entry
    obtain ⟨hname, hfresh, hchild, hrest⟩ := properEntries_cons.mp h
    rw [List.mem_cons, Prod.mk.injEq] at hmem
    obtain ⟨rfl, rfl⟩ | hmem := hmem
    · exact ⟨hname, hchild, by rw [List.lookup_cons_self]⟩
    · obtain ⟨hname', hnode, hlookup⟩ := ih hrest hmem
      have hne : (name == first) = false := by
        rw [beq_eq_false_iff_ne]
        rintro rfl
        exact hfresh (List.mem_map.mpr ⟨_, hmem, rfl⟩)
      exact ⟨hname', hnode, by rw [List.lookup_cons, hne, hlookup]⟩

theorem isName_of_mem {entries : List (String × Node)} (h : properEntries entries = true)
    {name : String} (hname : name ∈ entries.map Prod.fst) : Path.isName name = true := by
  obtain ⟨⟨name, node⟩, hmem, rfl⟩ := List.mem_map.mp hname
  exact (proper_of_mem h hmem).1

theorem mem_of_lookup {entries : List (String × Node)} {name : String} {node : Node}
    (h : entries.lookup name = some node) : (name, node) ∈ entries := by
  obtain ⟨before, after, rfl, -⟩ := List.lookup_eq_some_iff.mp h
  exact List.mem_append_right before List.mem_cons_self

theorem nodup_names {entries : List (String × Node)} (h : properEntries entries = true) :
    (entries.map Prod.fst).Nodup := by
  induction entries with
  | nil => exact List.nodup_nil
  | cons entry rest ih =>
    obtain ⟨-, hfresh, -, hrest⟩ := properEntries_cons.mp h
    exact List.nodup_cons.mpr ⟨hfresh, ih hrest⟩

namespace Node

theorem at?_append (node : Node) (place more : List String) :
    node.at? (place ++ more) = (node.at? place).bind fun child => child.at? more := by
  induction place generalizing node with
  | nil => cases more <;> rfl
  | cons name place ih =>
    cases node with
    | file content => rfl
    | folder access entries =>
      simp only [List.cons_append, at?]
      cases entries.lookup name with
      | none => rfl
      | some child => exact ih child

theorem isProper_at? {node child : Node} (h : node.isProper = true) {place : List String}
    (hat : node.at? place = some child) : child.isProper = true := by
  induction place generalizing node with
  | nil =>
    simp only [at?, Option.some.injEq] at hat
    rwa [← hat]
  | cons name place ih =>
    cases node with
    | file content => simp [at?] at hat
    | folder access entries =>
      simp only [at?, Option.bind_eq_some_iff] at hat
      obtain ⟨next, hnext, hat⟩ := hat
      exact ih (proper_of_mem h (mem_of_lookup hnext)).2.1 hat

end Node

/-- The entry of a name is within reach of a path to its folder: the folder can be searched, and the
path of the entry is not too long. -/
def Access.Reaches (access : Access) (folder : Path) (name : String) : Prop :=
  access.search = true ∧ (folder.join name).byteSize < FileTree.byteLimit

namespace FileTree

variable {t : FileTree}

theorem exists_place_of_find {p : Path} {node : Node} (h : t.find p = .ok node) :
    ∃ place, t.locate p = .ok place ∧ t.root.at? place = some node := by
  unfold find at h
  split at h
  · cases h
  · rename_i place hplace
    split at h
    · rename_i hat
      cases h
      exact ⟨place, hplace, hat⟩
    · cases h

theorem find_eq_ok {p : Path} {place : List String} {node : Node} (h : t.locate p = .ok place)
    (hat : t.root.at? place = some node) : t.find p = .ok node := by
  simp only [find, h, hat]

theorem isProper_find (ht : t.root.isProper = true) {p : Path} {node : Node}
    (h : t.find p = .ok node) : node.isProper = true := by
  obtain ⟨place, -, hat⟩ := exists_place_of_find h
  exact Node.isProper_at? ht hat

theorem proper_names (ht : t.root.isProper = true) {p : Path} {names : List String}
    (h : t.names p = .ok names) :
    (∀ name ∈ names, Path.isName name = true) ∧ names.Nodup := by
  unfold FileTree.names at h
  split at h
  · cases h
  · cases h
  · rename_i access entries hfind
    have hproper : properEntries entries = true := isProper_find ht hfind
    split at h
    · cases h
      exact ⟨fun name => isName_of_mem hproper, nodup_names hproper⟩
    · cases h

theorem steps_append (place : List String) (pieces more : List (List Char)) :
    t.steps place (pieces ++ more) =
      (t.steps place pieces).bind fun next => t.steps next more := by
  induction pieces generalizing place with
  | nil => rfl
  | cons piece pieces ih =>
    simp only [List.cons_append, steps]
    cases t.step place piece with
    | ok next => exact ih next
    | error e => rfl

theorem steps_singleton (place : List String) (piece : List Char) :
    t.steps place [piece] = t.step place piece := by
  simp only [steps]
  cases t.step place piece <;> rfl

theorem eq_of_step_empty {place next : List String} (h : t.step place [] = .ok next) :
    next = place := by
  unfold step at h
  split at h
  · cases h
  · cases h
  · exact (Except.ok.inj h).symm

/-- Where looking up the characters of a path begins, and the pieces it goes through. -/
def trail (t : FileTree) (cs : List Char) : List String × List (List Char) :=
  if cs.head? = some '/' then ([], Text.splitOn '/' cs.tail) else (t.current, Text.splitOn '/' cs)

theorem trail_append {cs : List Char} (h : cs ≠ []) (more : List Char) :
    t.trail (cs ++ '/' :: more) =
      ((t.trail cs).1, (t.trail cs).2 ++ Text.splitOn '/' more) := by
  obtain ⟨c, cs, rfl⟩ := List.exists_cons_of_ne_nil h
  unfold trail
  rw [List.cons_append, List.head?_cons, List.head?_cons, List.tail_cons, List.tail_cons]
  split
  · rw [Text.splitOn_append_sep]
  · rw [← List.cons_append, Text.splitOn_append_sep]

theorem locate_eq_steps {p : Path} (hnul : '\x00' ∉ p.text.toList) (hne : p.text.toList ≠ [])
    (hsize : p.byteSize < byteLimit) :
    t.locate p = t.steps (t.trail p.text.toList).1 (t.trail p.text.toList).2 := by
  unfold locate trail
  rw [if_neg (by simpa using hnul), if_neg (Nat.not_le.mpr hsize)]
  split
  · exact absurd ‹_› hne
  · rename_i rest htext
    simp [htext]
  · rename_i habsolute
    rw [if_neg]
    intro hhead
    obtain ⟨rest, htext⟩ := List.head?_eq_some_iff.mp hhead
    exact habsolute rest htext

theorem of_locate_eq_ok {p : Path} {place : List String} (h : t.locate p = .ok place) :
    '\x00' ∉ p.text.toList ∧ p.text.toList ≠ [] ∧ p.byteSize < byteLimit := by
  unfold locate at h
  split at h
  · cases h
  · rename_i hnul
    split at h
    · cases h
    · rename_i hsize
      refine ⟨by simpa using hnul, ?_, Nat.not_le.mp hsize⟩
      rintro hempty
      rw [hempty] at h
      cases h

/-- A path that is too long is not looked up, whatever it is. -/
theorem isFile_of_byteLimit_le {p : Path} (h : byteLimit ≤ p.byteSize) : t.isFile p = false := by
  unfold isFile
  cases hfind : t.find p with
  | error e => rfl
  | ok node =>
    obtain ⟨place, hplace, -⟩ := exists_place_of_find hfind
    exact absurd (of_locate_eq_ok hplace).2.2 (Nat.not_lt.mpr h)

/-- An entry of a folder is looked up by one step from the place of the folder. -/
theorem locate_join {p : Path} {place : List String} (h : t.locate p = .ok place) {name : String}
    (hname : Path.isName name = true) (hsize : (p.join name).byteSize < byteLimit) :
    t.locate (p.join name) = t.step place name.toList := by
  obtain ⟨hnul, hne, hsize'⟩ := of_locate_eq_ok h
  obtain ⟨-, -, -, hsep, hnul'⟩ := Path.isName_iff.mp hname
  rw [locate_eq_steps hnul hne hsize'] at h
  obtain ⟨hempty, -⟩ | ⟨cs, htext, hjoin⟩ | hjoin := p.join_cases name
  · exact absurd (by rw [hempty]; rfl) hne
  · -- the path ends with a separator, and so with an empty piece
    rw [htext] at h hnul
    rw [locate_eq_steps (by simp_all) (by simp [hjoin]) hsize, hjoin]
    by_cases hroot : cs = []
    · subst hroot
      have hplace : place = [] := eq_of_step_empty (by rw [← steps_singleton]; exact h)
      rw [hplace, ← steps_singleton, ← Text.splitOn_of_not_mem hsep]
      rfl
    · rw [trail_append hroot] at h ⊢
      rw [steps_append] at h ⊢
      rw [Text.splitOn_of_not_mem hsep]
      cases hmid : t.steps (t.trail cs).1 (t.trail cs).2 with
      | error e => rw [hmid] at h; cases h
      | ok mid =>
        rw [hmid] at h
        have hplace : place = mid := eq_of_step_empty (by rw [← steps_singleton]; exact h)
        rw [hplace, ← steps_singleton]
        rfl
  · rw [locate_eq_steps (by simp_all) (by simp [hjoin]) hsize, hjoin, trail_append hne, steps_append,
      h, Text.splitOn_of_not_mem hsep, ← steps_singleton]
    rfl

section Entries

variable {p : Path} {access : Access} {entries : List (String × Node)} {name : String} {node : Node}

/-- Looking up a name in a folder finds the entry of that name, if it is within reach. -/
theorem find_join (h : t.find p = .ok (.folder access entries)) (hname : Path.isName name = true)
    (hnode : entries.lookup name = some node) (hreach : access.Reaches p name) :
    t.find (p.join name) = .ok node := by
  obtain ⟨hsearch, hsize⟩ := hreach
  obtain ⟨hne, hdot, hdots, -⟩ := Path.isName_iff.mp hname
  obtain ⟨place, hplace, hat⟩ := exists_place_of_find h
  have hstep : t.step place name.toList = .ok (place ++ [name]) := by
    simp [step, hat, hne, hdot, hdots, hnode, hsearch]
  have hchild : t.root.at? (place ++ [name]) = some node := by
    rw [Node.at?_append, hat]
    simp [Node.at?, hnode]
  simp only [find, locate_join hplace hname hsize, hstep, hchild]

theorem isFile_join_of_not_search (h : t.find p = .ok (.folder access entries))
    (hname : Path.isName name = true) (hsearch : access.search = false) :
    t.isFile (p.join name) = false := by
  by_cases hsize : (p.join name).byteSize < byteLimit
  · obtain ⟨hne, -⟩ := Path.isName_iff.mp hname
    obtain ⟨place, hplace, hat⟩ := exists_place_of_find h
    have hstep : t.step place name.toList = .error .denied := by
      simp [step, hat, hne, hsearch]
    simp only [isFile, find, locate_join hplace hname hsize, hstep]
  · exact isFile_of_byteLimit_le (Nat.not_lt.mp hsize)

/-- An entry of a folder is seen to be a file exactly if it is one and within reach. -/
theorem isFile_join_iff (h : t.find p = .ok (.folder access entries))
    (hname : Path.isName name = true) (hnode : entries.lookup name = some node) :
    t.isFile (p.join name) = true ↔ node.isFolder = false ∧ access.Reaches p name := by
  unfold Access.Reaches
  cases hsearch : access.search with
  | false => simp [isFile_join_of_not_search h hname hsearch]
  | true =>
    by_cases hsize : (p.join name).byteSize < byteLimit
    · simp [isFile, find_join h hname hnode ⟨hsearch, hsize⟩, hsize]
    · simp [isFile_of_byteLimit_le (Nat.not_lt.mp hsize), hsize]

end Entries

end FileTree

end BatchCodec
