import BatchCodec.Expansion
import BatchCodec.Proofs.PathOrder
import BatchCodec.Proofs.ProperTrees
/-!
What a pattern stands for.

A pattern is expanded to the files that its parts lead to, sorted; nothing takes out a file that is met
twice. A part leads from a path to longer routes (`prefix_of_mem_walk`), and to different ones
(`apart_nexts`, `apart_below`), but from different paths the parts behind it may come together again.
They do not if the paths are equally deep or all the ways on are equally long (`apart_flatMap`). Only
two stars, and names with wildcards that match `.`, lead to different depths from one path; these are
the loose parts, and with at most one of them no route is met twice (`apart_walk`).

Routes are not places. A route that goes up comes to a place that another route may lead to as well:
where the current folder is the root, `.*/a/*.txt` meets one file as `./../a/x.txt` and as `a/x.txt`.
These are two paths with different components, and both are listed.

Main statement: `pattern_lists_a_file_once_for_each_way`.
-/

namespace BatchCodec

namespace Pattern

/-- Two paths that go through different names. -/
def Apart (p q : Path) : Prop := p.route ≠ q.route

theorem Apart.symm {p q : Path} (h : Apart p q) : Apart q p := Ne.symm h

/-- Two lists of one length that begin the same list are the same. -/
theorem eq_of_common_extension {α : Type} {xs ys zs : List α} (hx : xs <+: zs) (hy : ys <+: zs)
    (hlength : xs.length = ys.length) : xs = ys :=
  (List.prefix_of_prefix_length_le hx hy (Nat.le_of_eq hlength)).eq_of_length hlength

theorem inNameOrder_flatten_perm {α : Type} (xs : List (String × List α)) :
    (inNameOrder xs).flatten.Perm (xs.flatMap Prod.snd) := by
  rw [List.flatMap_def]
  exact ((List.mergeSort_perm xs _).map Prod.snd).flatten

/-! ## Entries below a folder -/

theorem route_childOf (folder : Path) (name : String) :
    (childOf folder name).route = folder.route ++ Path.route ⟨name⟩ := by
  unfold childOf
  split
  · rename_i hhere
    have hroute : folder.route = [] := Path.route_eq_of_components_eq (beq_iff_eq.mp hhere)
    rw [hroute, List.nil_append]
  · exact folder.route_join name

mutual

/-- The entries below a proper node lie deeper than it does, and no two have the same route. -/
theorem apart_below (node : Node) (hnode : node.isProper = true) (child : String → Path)
    (base : List Component) (hchild : ∀ name, (child name).route = base ++ Path.route ⟨name⟩) :
    (∀ e ∈ below child node, ∃ c more, e.path.route = base ++ c :: more) ∧
      (below child node).Pairwise fun e e' => Apart e.path e'.path := by
  match node with
  | .file content => exact ⟨by simp [below], List.Pairwise.nil⟩
  | .folder ⟨false, search⟩ entries => exact ⟨by simp [below], by simp [below]⟩
  | .folder ⟨true, search⟩ entries =>
    obtain ⟨hdeeper, hapart⟩ := apart_belowEntries entries hnode child base hchild
    have hperm : (below child (.folder ⟨true, search⟩ entries)).Perm
        ((belowEntries child entries).flatMap Prod.snd) := by
      simp only [below, if_true]
      exact inNameOrder_flatten_perm (belowEntries child entries)
    refine ⟨fun e he => ?_, (hperm.pairwise_iff Apart.symm).mpr hapart⟩
    obtain ⟨name, -, more, hroute⟩ := hdeeper e (hperm.mem_iff.mp he)
    exact ⟨.name name.toList, more, by rw [← hroute, List.append_assoc]; rfl⟩

/-- The same of the entries of a folder, each with what lies below it. -/
theorem apart_belowEntries (entries : List (String × Node)) (hentries : properEntries entries = true)
    (child : String → Path) (base : List Component)
    (hchild : ∀ name, (child name).route = base ++ Path.route ⟨name⟩) :
    (∀ e ∈ (belowEntries child entries).flatMap Prod.snd, ∃ name ∈ entries.map Prod.fst,
      base ++ [.name name.toList] <+: e.path.route) ∧
      ((belowEntries child entries).flatMap Prod.snd).Pairwise fun e e' => Apart e.path e'.path := by
  match entries with
  | [] => exact ⟨by simp [belowEntries], List.Pairwise.nil⟩
  | (name, node) :: rest =>
    obtain ⟨hname, hfresh, hnode, hrest⟩ := properEntries_cons.mp hentries
    obtain ⟨hdeeper, hapart⟩ := apart_below node hnode (child name).join (child name).route
      (child name).route_join
    obtain ⟨hothers, hapart'⟩ := apart_belowEntries rest hrest child base hchild
    have hroute : (child name).route = base ++ [.name name.toList] := by
      rw [hchild, Path.route_of_isName hname]
    have hfirst : ∀ e ∈ (⟨name, child name, node.isFolder⟩ : Entry) :: below (child name).join node,
        base ++ [.name name.toList] <+: e.path.route := by
      intro e he
      obtain rfl | he := List.mem_cons.mp he
      · exact hroute ▸ List.prefix_rfl
      · obtain ⟨c, more, hmore⟩ := hdeeper e he
        rw [hmore, hroute]
        exact List.prefix_append _ _
    rw [belowEntries, List.flatMap_cons, List.pairwise_append, List.pairwise_cons]
    refine ⟨fun e he => ?_, ⟨fun e he => ?_, hapart⟩, hapart', fun e he e' he' hsame => ?_⟩
    · obtain he | he := List.mem_append.mp he
      · exact ⟨name, List.mem_cons_self, hfirst e he⟩
      · obtain ⟨other, hother, hroute'⟩ := hothers e he
        exact ⟨other, List.mem_cons_of_mem _ hother, hroute'⟩
    · obtain ⟨c, more, hmore⟩ := hdeeper e he
      simp [Apart, hmore]
    · -- both names would stand at the same depth of the same route
      obtain ⟨other, hother, hroute'⟩ := hothers e' he'
      have heq := eq_of_common_extension (hsame ▸ hfirst e he) hroute' (by simp)
      have hnames : name = other := by simpa [String.toList_inj] using heq
      exact hfresh (hnames ▸ hother)

end

/-! ## One part at a time -/

/-- Where a part with wildcards leads from a folder with the given names. -/
def nexts (part : Part) (p : Path) (names : List String) : List Path :=
  (["..", "."].filter fun name => part.beginsWithDot && part.fits name).map p.join ++
    (names.filter fun name => part.fits name).map (childOf p)

/-- A part that leads from one folder to different depths: two stars, or a name with wildcards that is
compared with `.` and matches it. -/
def Part.isLoose : Part → Bool
  | .folders => true
  | part => part.beginsWithDot && part.fits "."

theorem flatMap_filter_map {α β γ : Type} (xs : List α) (keep : α → Bool) (f : α → β)
    (g : β → List γ) :
    ((xs.filter keep).map f).flatMap g = xs.flatMap fun x => if keep x then g (f x) else [] := by
  induction xs with
  | nil => rfl
  | cons x xs ih =>
    rw [List.filter_cons, List.flatMap_cons, ← ih]
    split <;> simp

section Walk

variable {t : FileTree} {foldersOnly : Bool}

theorem eq_of_mem_arrive {p r : Path} (h : r ∈ arrive t foldersOnly p) : r = p := by
  unfold arrive at h
  split at h
  · cases h
  · exact List.mem_singleton.mp h

theorem walk_literal (t : FileTree) (foldersOnly : Bool) (name : List Char) (parts : List Part)
    (p : Path) :
    walk t foldersOnly (.literal name :: parts) p = [] ∨
      walk t foldersOnly (.literal name :: parts) p =
        walk t foldersOnly parts (childOf p (String.ofList name)) := by
  rw [walk]
  by_cases there : (if String.ofList name = "." ∨ String.ofList name = ".." then t.isFolder p
    else t.has (childOf p (String.ofList name))) = true
  · exact Or.inr (if_pos there)
  · exact Or.inl (if_neg there)

theorem walk_wild {p : Path} {names : List String} (h : t.names p = .ok names) (ts : List Token)
    (parts : List Part) :
    (walk t foldersOnly (.wild ts :: parts) p).Perm
      ((nexts (.wild ts) p names).flatMap (walk t foldersOnly parts)) := by
  unfold nexts
  simp only [walk, h]
  rw [List.flatMap_append, flatMap_filter_map, flatMap_filter_map]
  apply List.Perm.append
  · simp
  · refine (inNameOrder_flatten_perm _).trans ?_
    rw [List.flatMap_map]

/-- A next path is one name further than the path, or, for `.` and a loose part, no name. -/
theorem route_of_mem_nexts {part : Part} {p q : Path} {names : List String}
    (hnames : ∀ name ∈ names, Path.isName name = true) (h : q ∈ nexts part p names) :
    ∃ more, q.route = p.route ++ more ∧ (part.isLoose = true ∨ more.length = 1) := by
  obtain h | h := List.mem_append.mp h
  · obtain ⟨name, hname, rfl⟩ := List.mem_map.mp h
    obtain ⟨hname, hfits⟩ := List.mem_filter.mp hname
    refine ⟨Path.route ⟨name⟩, p.route_join name, ?_⟩
    rw [List.mem_cons, List.mem_singleton] at hname
    obtain rfl | rfl := hname
    · exact Or.inr (by rw [Path.route_up]; rfl)
    · left
      cases part with
      | folders => rfl
      | literal name => exact hfits
      | wild ts => exact hfits
  · obtain ⟨name, hname, rfl⟩ := List.mem_map.mp h
    have hroute := Path.route_of_isName (hnames name (List.mem_filter.mp hname).1)
    exact ⟨Path.route ⟨name⟩, route_childOf p name, Or.inr (by rw [hroute]; rfl)⟩

theorem apart_nexts {part : Part} {p : Path} {names : List String}
    (hnames : ∀ name ∈ names, Path.isName name = true) (hnodup : names.Nodup) :
    (nexts part p names).Pairwise Apart := by
  unfold nexts
  rw [List.pairwise_append, List.pairwise_map, List.pairwise_map]
  refine ⟨List.Pairwise.filter _ ?_, List.Pairwise.filter _ ?_, ?_⟩
  · simp [Apart, Path.route_join, Path.route_up, Path.route_here]
  · apply hnodup.imp_of_mem
    intro first second hfirst hsecond hne hsame
    rw [route_childOf, route_childOf, Path.route_of_isName (hnames first hfirst),
      Path.route_of_isName (hnames second hsecond)] at hsame
    exact hne (by simpa [String.toList_inj] using hsame)
  · intro q hq q' hq' hsame
    obtain ⟨special, hspecial, rfl⟩ := List.mem_map.mp hq
    obtain ⟨name, hname, rfl⟩ := List.mem_map.mp hq'
    have hroute := Path.route_of_isName (hnames name (List.mem_filter.mp hname).1)
    have hspecial := (List.mem_filter.mp hspecial).1
    rw [Path.route_join, route_childOf, hroute, List.append_cancel_left_eq] at hsame
    rw [List.mem_cons, List.mem_singleton] at hspecial
    obtain rfl | rfl := hspecial
    · simp [Path.route_up] at hsame
    · simp [Path.route_here] at hsame

/-- A part with wildcards leads along different routes, from the ends of which the parts behind it go on;
each is one name longer, unless the part is loose. -/
theorem exists_nexts (foldersOnly : Bool) (ht : t.root.isProper = true) (ts : List Token)
    (p : Path) :
    ∃ paths : List Path, paths.Pairwise Apart ∧
      (∀ q ∈ paths, ∃ more, q.route = p.route ++ more ∧
        ((Part.wild ts).isLoose = true ∨ more.length = 1)) ∧
      ∀ parts, (walk t foldersOnly (.wild ts :: parts) p).Perm
        (paths.flatMap (walk t foldersOnly parts)) := by
  cases h : t.names p with
  | error e => exact ⟨[], List.Pairwise.nil, by simp, fun parts => by simp [walk, h]⟩
  | ok names =>
    obtain ⟨hproper, hnodup⟩ := FileTree.proper_names ht h
    exact ⟨nexts (.wild ts) p names, apart_nexts hproper hnodup,
      fun q hq => route_of_mem_nexts hproper hq, walk_wild h ts⟩

/-- The entries below a path that are kept lie below the path, and no two have the same route. -/
theorem apart_entries (ht : t.root.isProper = true) {p : Path} {node : Node}
    (h : t.find p = .ok node) (keep : Entry → Bool) :
    (((below (childOf p) node).filter keep).map Entry.path).Pairwise Apart ∧
      ∀ q ∈ ((below (childOf p) node).filter keep).map Entry.path, p.route <+: q.route := by
  obtain ⟨hdeeper, hapart⟩ :=
    apart_below node (FileTree.isProper_find ht h) (childOf p) p.route (route_childOf p)
  refine ⟨List.pairwise_map.mpr (hapart.filter keep), fun q hq => ?_⟩
  obtain ⟨e, he, rfl⟩ := List.mem_map.mp hq
  obtain ⟨c, more, hroute⟩ := hdeeper e (List.mem_filter.mp he).1
  exact ⟨c :: more, hroute.symm⟩

/-- Two stars and the part behind them lead along different routes, from the ends of which the parts
after these go on. -/
theorem exists_entries (foldersOnly : Bool) (ht : t.root.isProper = true) (part : Part)
    (p : Path) :
    ∃ paths : List Path, paths.Pairwise Apart ∧ (∀ q ∈ paths, p.route <+: q.route) ∧
      ∀ parts, walk t foldersOnly (.folders :: part :: parts) p =
        paths.flatMap (walk t foldersOnly parts) := by
  cases h : t.find p with
  | error e => exact ⟨[], List.Pairwise.nil, by simp, fun parts => by simp [walk, h]⟩
  | ok node =>
    obtain ⟨hapart, hbelow⟩ := apart_entries ht h fun e => part.fits e.name
    refine ⟨_, hapart, hbelow, fun parts => ?_⟩
    simp only [walk, h]
    rw [flatMap_filter_map]

theorem apart_walk_folders (ht : t.root.isProper = true) (p : Path) :
    (walk t foldersOnly [.folders] p).Pairwise Apart ∧
      ∀ q ∈ walk t foldersOnly [.folders] p, p.route <+: q.route := by
  rw [walk]
  cases h : t.find p with
  | error e => exact ⟨List.Pairwise.nil, by simp⟩
  | ok node => exact apart_entries ht h Entry.isFolder

/-! ## A whole walk -/

/-- A walk only goes on. -/
theorem prefix_of_mem_walk (ht : t.root.isProper = true) (parts : List Part) (p r : Path)
    (h : r ∈ walk t foldersOnly parts p) : p.route <+: r.route := by
  match parts with
  | [] => exact eq_of_mem_arrive h ▸ List.prefix_rfl
  | .literal name :: parts =>
    obtain hwalk | hwalk := walk_literal t foldersOnly name parts p
    · rw [hwalk] at h
      cases h
    · rw [hwalk] at h
      refine List.IsPrefix.trans ?_ (prefix_of_mem_walk ht parts _ r h)
      rw [route_childOf]
      exact List.prefix_append _ _
  | .wild ts :: parts =>
    obtain ⟨paths, -, hpaths, hwalk⟩ := exists_nexts foldersOnly ht ts p
    obtain ⟨q, hq, hr⟩ := List.mem_flatMap.mp ((hwalk parts).mem_iff.mp h)
    obtain ⟨more, hroute, -⟩ := hpaths q hq
    exact List.IsPrefix.trans ⟨more, hroute.symm⟩ (prefix_of_mem_walk ht parts q r hr)
  | [.folders] => exact (apart_walk_folders ht p).2 r h
  | .folders :: part :: parts =>
    obtain ⟨paths, -, hpaths, hwalk⟩ := exists_entries foldersOnly ht part p
    rw [hwalk] at h
    obtain ⟨q, hq, hr⟩ := List.mem_flatMap.mp h
    exact (hpaths q hq).trans (prefix_of_mem_walk ht parts q r hr)

/-- How many parts are loose. The part behind two stars is compared with names only, so that it is
not. -/
def loose : List Part → Nat
  | [] => 0
  | .folders :: _ :: parts => 1 + loose parts
  | part :: parts => part.isLoose.toNat + loose parts

/-- Parts of which none is loose lead to one depth. -/
theorem exists_depth (ht : t.root.isProper = true) (parts : List Part) (hloose : loose parts = 0) :
    ∃ depth, ∀ p r, r ∈ walk t foldersOnly parts p →
      r.route.length = p.route.length + depth := by
  match parts with
  | [] => exact ⟨0, fun p r h => by rw [eq_of_mem_arrive h, Nat.add_zero]⟩
  | .literal name :: parts =>
    have hrest : loose parts = 0 := by simpa [loose, Part.isLoose, Part.beginsWithDot] using hloose
    obtain ⟨depth, hdepth⟩ := exists_depth ht parts hrest
    refine ⟨(Path.route ⟨String.ofList name⟩).length + depth, fun p r h => ?_⟩
    obtain hwalk | hwalk := walk_literal t foldersOnly name parts p
    · rw [hwalk] at h
      cases h
    · rw [hwalk] at h
      rw [hdepth _ r h, route_childOf, List.length_append, Nat.add_assoc]
  | .wild ts :: parts =>
    have hwild : (Part.wild ts).isLoose = false ∧ loose parts = 0 := by
      simpa [loose] using hloose
    obtain ⟨depth, hdepth⟩ := exists_depth ht parts hwild.2
    refine ⟨1 + depth, fun p r h => ?_⟩
    obtain ⟨paths, -, hpaths, hwalk⟩ := exists_nexts foldersOnly ht ts p
    obtain ⟨q, hq, hr⟩ := List.mem_flatMap.mp ((hwalk parts).mem_iff.mp h)
    obtain ⟨more, hroute, hmore⟩ := hpaths q hq
    rw [hwild.1] at hmore
    obtain hmore | hmore := hmore
    · cases hmore
    · rw [hdepth q r hr, hroute, List.length_append, hmore, Nat.add_assoc]
  | [.folders] => simp [loose, Part.isLoose] at hloose
  | .folders :: part :: parts => simp [loose] at hloose

/-- Ways on from the ends of different routes stay apart if the routes are equally long, or if all the
ways are. -/
theorem apart_flatMap {paths : List Path} {onward : Path → List Path}
    (hpaths : paths.Pairwise Apart) (honward : ∀ q ∈ paths, (onward q).Pairwise Apart)
    (hextend : ∀ q ∈ paths, ∀ r ∈ onward q, q.route <+: r.route)
    (hdepth : (∃ depth, ∀ q ∈ paths, q.route.length = depth) ∨
      ∃ depth, ∀ q r, r ∈ onward q → r.route.length = q.route.length + depth) :
    (paths.flatMap onward).Pairwise Apart := by
  rw [List.pairwise_flatMap]
  refine ⟨honward, hpaths.imp_of_mem ?_⟩
  intro q q' hq hq' hne r hr r' hr' hsame
  have hlength : q.route.length = q'.route.length := by
    obtain ⟨depth, hdepth⟩ | ⟨depth, hdepth⟩ := hdepth
    · rw [hdepth q hq, hdepth q' hq']
    · have hends := congrArg List.length hsame
      rw [hdepth q r hr, hdepth q' r' hr'] at hends
      exact Nat.add_right_cancel hends
  exact hne (eq_of_common_extension (hextend q hq r hr) (hsame ▸ hextend q' hq' r' hr') hlength)

/-- Parts of which at most one is loose lead along each route in one way only. -/
theorem apart_walk (ht : t.root.isProper = true) (parts : List Part) (hloose : loose parts ≤ 1)
    (p : Path) : (walk t foldersOnly parts p).Pairwise Apart := by
  match parts with
  | [] =>
    rw [walk, arrive]
    split
    · exact List.Pairwise.nil
    · exact List.pairwise_singleton _ _
  | .literal name :: parts =>
    have hrest : loose parts ≤ 1 := by
      simpa [loose, Part.isLoose, Part.beginsWithDot] using hloose
    obtain hwalk | hwalk := walk_literal t foldersOnly name parts p
    · rw [hwalk]
      exact List.Pairwise.nil
    · rw [hwalk]
      exact apart_walk ht parts hrest _
  | .wild ts :: parts =>
    have hsum : (Part.wild ts).isLoose.toNat + loose parts ≤ 1 := hloose
    obtain ⟨paths, hapart, hpaths, hwalk⟩ := exists_nexts foldersOnly ht ts p
    rw [(hwalk parts).pairwise_iff Apart.symm]
    apply apart_flatMap hapart
    · exact fun q _ => apart_walk ht parts (by omega) q
    · exact fun q _ r => prefix_of_mem_walk ht parts q r
    · cases hwild : (Part.wild ts).isLoose with
      | false =>
        refine Or.inl ⟨p.route.length + 1, fun q hq => ?_⟩
        obtain ⟨more, hroute, hmore⟩ := hpaths q hq
        rw [hwild] at hmore
        obtain hmore | hmore := hmore
        · cases hmore
        · rw [hroute, List.length_append, hmore]
      | true =>
        rw [hwild, Bool.toNat_true] at hsum
        exact Or.inr (exists_depth ht parts (by omega))
  | [.folders] => exact (apart_walk_folders ht p).1
  | .folders :: part :: parts =>
    have hsum : 1 + loose parts ≤ 1 := hloose
    obtain ⟨paths, hapart, -, hwalk⟩ := exists_entries foldersOnly ht part p
    rw [hwalk]
    apply apart_flatMap hapart
    · exact fun q _ => apart_walk ht parts (by omega) q
    · exact fun q _ r => prefix_of_mem_walk ht parts q r
    · exact Or.inr (exists_depth ht parts (by omega))

end Walk

end Pattern

/-! ## What a pattern stands for -/

theorem expandInput_of_pattern {t : FileTree} {raw : Path} {g : Pattern.Glob}
    (habsent : t.has raw = false) (hpattern : Pattern.isPattern raw.text = true)
    (hread : Pattern.Glob.read raw.text.toList = .ok g) (d : Direction) :
    expandInput t d raw = .ok (patternFiles t g) := by
  simp [expandInput, habsent, hpattern, hread]

/-- **A pattern lists a file once for each way in which it is met.** Let a text be the path of nothing
and a pattern that can be read. In either direction it is expanded to files only, in ascending order:
those that the parts of the pattern lead to, each as often as they do. So the order is strict exactly
if no two of the files met have the same components, as it is, whatever the folders hold, if at most
one part of the pattern is loose. -/
theorem pattern_lists_a_file_once_for_each_way (t : FileTree) (raw : Path) (g : Pattern.Glob)
    (habsent : t.has raw = false) (hpattern : Pattern.isPattern raw.text = true)
    (hread : Pattern.Glob.read raw.text.toList = .ok g) :
    ∃ files, (∀ d, expandInput t d raw = .ok files) ∧
      files.Perm ((g.paths t).filter t.isFile) ∧
      (∀ p ∈ files, t.isFile p = true) ∧
      files.Pairwise (fun p q => p.upTo q = true) ∧
      (files.Pairwise Path.Before ↔
        ((g.paths t).filter t.isFile).Pairwise fun p q => p.components ≠ q.components) ∧
      (t.root.isProper = true → Pattern.loose g.parts ≤ 1 → files.Pairwise Path.Before) := by
  refine ⟨patternFiles t g, expandInput_of_pattern habsent hpattern hread, Path.sort_perm _, ?_,
    Path.pairwise_sort _, Path.ascending_sort_iff, ?_⟩
  · intro p hp
    exact (List.mem_filter.mp (Path.mem_sort.mp hp)).2
  · intro ht hloose
    have hapart : (g.paths t).Pairwise Pattern.Apart := Pattern.apart_walk ht g.parts hloose _
    refine Path.ascending_sort_iff.mpr (List.Pairwise.filter _ (hapart.imp ?_))
    exact fun hne hsame => hne (Path.route_eq_of_components_eq hsame)

/-- Two stars lead through both of two nested folders of one name, and to the file in one way. -/
theorem pattern_lists_a_file_once_for_each_way_through_two_folders :
    let t : FileTree :=
      ⟨.folder .full [("a", .folder .full [("a", .folder .full [("x.txt", .file {})])])], []⟩
    let raw : Path := ⟨"**/a/*.txt"⟩
    ∃ g, (t.has raw = false ∧ Pattern.isPattern raw.text = true ∧
      Pattern.Glob.read raw.text.toList = .ok g ∧ t.root.isProper = true ∧
      Pattern.loose g.parts = 1) ∧
    ∃ files, (∀ d, expandInput t d raw = .ok files) ∧ files = [⟨"a/a/x.txt"⟩] ∧
      files.Pairwise Path.Before := by
  intro t raw
  have habsent : t.has raw = false := by decide +kernel
  have hpattern : Pattern.isPattern raw.text = true := by decide +kernel
  have hproper : t.root.isProper = true := by decide +kernel
  have hmet : (Pattern.Glob.read raw.text.toList).toOption.map
      (fun g => (Pattern.loose g.parts, (g.paths t).filter t.isFile)) =
      some (1, [⟨"a/a/x.txt"⟩]) := by decide +kernel
  cases hread : Pattern.Glob.read raw.text.toList with
  | error e => rw [hread] at hmet; cases hmet
  | ok g =>
    rw [hread, Except.toOption, Option.map_some, Option.some.injEq, Prod.mk.injEq] at hmet
    obtain ⟨files, hexpand, hperm, -, -, -, hascending⟩ :=
      pattern_lists_a_file_once_for_each_way t raw g habsent hpattern hread
    rw [hmet.2, List.perm_singleton] at hperm
    exact ⟨g, ⟨habsent, hpattern, rfl, hproper, hmet.1⟩, files, hexpand, hperm,
      hascending hproper (Nat.le_of_eq hmet.1)⟩

/-- A file to which two stars, given twice, lead in two ways is listed twice. -/
theorem file_met_twice_is_listed_twice :
    let t : FileTree :=
      ⟨.folder .full [("a", .folder .full [("a", .folder .full [("x.txt", .file {})])])], []⟩
    let raw : Path := ⟨"**/a/**/*.txt"⟩
    t.root.isProper = true ∧ t.has raw = false ∧ Pattern.isPattern raw.text = true ∧
      ∀ d, expandInput t d raw = .ok [⟨"a/a/x.txt"⟩, ⟨"a/a/x.txt"⟩] := by
  intro t raw
  have habsent : t.has raw = false := by decide +kernel
  have hpattern : Pattern.isPattern raw.text = true := by decide +kernel
  have hmet : (Pattern.Glob.read raw.text.toList).toOption.map
      (fun g => (g.paths t).filter t.isFile) =
      some [⟨"a/a/x.txt"⟩, ⟨"a/a/x.txt"⟩] := by decide +kernel
  refine ⟨by decide +kernel, habsent, hpattern, fun d => ?_⟩
  cases hread : Pattern.Glob.read raw.text.toList with
  | error e => rw [hread] at hmet; cases hmet
  | ok g =>
    rw [hread, Except.toOption, Option.map_some, Option.some.injEq] at hmet
    have hfiles : patternFiles t g = [⟨"a/a/x.txt"⟩, ⟨"a/a/x.txt"⟩] := by
      rw [patternFiles, hmet]
      exact List.mergeSort_of_pairwise (by decide +kernel)
    rw [expandInput_of_pattern habsent hpattern hread, hfiles]

end BatchCodec
