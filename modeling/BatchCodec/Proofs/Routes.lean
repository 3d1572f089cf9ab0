import BatchCodec.Path
/-!
Routes: the names that a path goes through.

The route of a path is what the pieces between its separators stand for, wherever the path begins; its
components are the route with the root or a leading `.` in front (`components_eq`). Unlike the
components, the route of a joined path is always the one route and then the other (`route_join`), so
paths below a path are compared by what was joined to it. Paths with different routes have different
components (`route_eq_of_components_eq`).
-/

namespace BatchCodec

namespace Component

theorem ofPiece?_ne {piece : List Char} {c : Component}
    (h : ofPiece? piece = some c) : c ≠ root ∧ c ≠ here := by
  unfold ofPiece? at h
  split at h <;> cases h <;> exact ⟨nofun, nofun⟩

theorem ofPiece?_eq_none_iff {piece : List Char} :
    ofPiece? piece = none ↔ piece = [] ∨ piece = ['.'] := by
  unfold ofPiece?
  split <;> simp_all

theorem ofPiece?_eq_name_iff {piece n : List Char} :
    ofPiece? piece = some (.name n) ↔ piece = n ∧ n ≠ [] ∧ n ≠ ['.'] ∧ n ≠ ['.', '.'] := by
  constructor
  · intro h
    unfold ofPiece? at h
    split at h
    · cases h
    · cases h
    · cases h
    · rename_i hempty hdot hdots
      cases h
      exact ⟨rfl, hempty, hdot, hdots⟩
  · rintro ⟨rfl, hempty, hdot, hdots⟩
    unfold ofPiece?
    split <;> simp_all

end Component

namespace Path

/-- What the pieces between the separators stand for. -/
def route (p : Path) : List Component :=
  (Text.splitOn '/' p.text.toList).filterMap Component.ofPiece?

/-- The components are the route and, before it, where it begins. -/
theorem components_eq (p : Path) :
    ∃ origin, (origin = [] ∨ origin = [Component.root] ∨ origin = [Component.here]) ∧
      p.components = origin ++ p.route := by
  unfold components route
  split
  · rename_i rest htext
    exact ⟨[.root], by simp, by rw [htext]; rfl⟩
  · split
    · rename_i pieces hpieces
      exact ⟨[.here], by simp, by rw [hpieces]; rfl⟩
    · exact ⟨[], by simp, rfl⟩

theorem route_eq_filter (p : Path) :
    p.route = p.components.filter fun c => c ≠ .root ∧ c ≠ .here := by
  have hroute : p.route.filter (fun c => c ≠ .root ∧ c ≠ .here) = p.route := by
    rw [List.filter_eq_self]
    intro c hc
    obtain ⟨piece, -, hpiece⟩ := List.mem_filterMap.mp hc
    exact decide_eq_true (Component.ofPiece?_ne hpiece)
  obtain ⟨origin, horigin, hcomponents⟩ := p.components_eq
  rw [hcomponents, List.filter_append, hroute]
  obtain rfl | rfl | rfl := horigin <;> rfl

theorem route_eq_of_components_eq {p q : Path} (h : p.components = q.components) :
    p.route = q.route := by
  rw [route_eq_filter, route_eq_filter, h]

theorem getLast?_components {p : Path} {c : Component} (h : p.route.getLast? = some c) :
    p.components.getLast? = some c := by
  obtain ⟨origin, -, hcomponents⟩ := p.components_eq
  rw [hcomponents, List.getLast?_append, h]
  rfl

/-! ## Joining

A joined path has one separator between its two parts, which the path may have brought along. -/

theorem join_cases (p : Path) (name : String) :
    (p.text = "" ∧ p.join name = ⟨name⟩) ∨
    (∃ cs, p.text.toList = cs ++ ['/'] ∧
      (p.join name).text.toList = cs ++ '/' :: name.toList) ∨
    (p.join name).text.toList = p.text.toList ++ '/' :: name.toList := by
  unfold join
  split
  · rename_i h
    rw [Bool.or_eq_true, String.isEmpty_iff, beq_iff_eq, List.getLast?_eq_some_iff] at h
    obtain hempty | ⟨cs, hcs⟩ := h
    · exact Or.inl ⟨hempty, by rw [hempty, String.empty_append]⟩
    · exact Or.inr (Or.inl ⟨cs, hcs, by simp [hcs]⟩)
  · exact Or.inr (Or.inr (by simp))

theorem route_join (p : Path) (name : String) :
    (p.join name).route = p.route ++ route ⟨name⟩ := by
  unfold route
  obtain ⟨hempty, hjoin⟩ | ⟨cs, htext, hjoin⟩ | hjoin := p.join_cases name
  · rw [hjoin, hempty]
    rfl
  · rw [hjoin, htext, Text.splitOn_append_sep, Text.splitOn_append_sep, List.filterMap_append,
      List.filterMap_append]
    simp [Text.splitOn, Component.ofPiece?]
  · rw [hjoin, Text.splitOn_append_sep, List.filterMap_append]

/-! ## Names -/

/-- Whether a text can be the name of an entry of a folder. -/
def isName (n : String) : Bool :=
  let cs := n.toList
  cs != [] && cs != ['.'] && cs != ['.', '.'] && !cs.contains '/' && !cs.contains '\x00'

theorem isName_iff {n : String} :
    isName n = true ↔
      n.toList ≠ [] ∧ n.toList ≠ ['.'] ∧ n.toList ≠ ['.', '.'] ∧ '/' ∉ n.toList ∧
        '\x00' ∉ n.toList := by
  simp [isName, and_assoc]

theorem route_here : route ⟨"."⟩ = [] := by decide

theorem route_up : route ⟨".."⟩ = [.up] := by decide

theorem ofPiece?_of_isName {n : String} (h : isName n = true) :
    Component.ofPiece? n.toList = some (.name n.toList) := by
  obtain ⟨hne, hdot, hdots, -⟩ := isName_iff.mp h
  exact Component.ofPiece?_eq_name_iff.mpr ⟨rfl, hne, hdot, hdots⟩

theorem route_of_isName {n : String} (h : isName n = true) : route ⟨n⟩ = [.name n.toList] := by
  obtain ⟨-, -, -, hsep, -⟩ := isName_iff.mp h
  rw [route, Text.splitOn_of_not_mem hsep, List.filterMap_cons, ofPiece?_of_isName h]
  rfl

/-- A name joined to a path is the last component. -/
theorem getLast?_components_join (p : Path) {name : String} (h : isName name = true) :
    (p.join name).components.getLast? = some (.name name.toList) := by
  apply getLast?_components
  rw [route_join, route_of_isName h, List.getLast?_concat]

end Path

end BatchCodec
