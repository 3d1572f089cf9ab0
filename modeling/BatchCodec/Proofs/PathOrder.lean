import BatchCodec.Path
/-!
Paths in order.

A component is its kind and, for a name, its characters; components are ordered by the first of the two
in which they differ (`before_iff`), and lists of components by the first component in which they
differ. So paths are totally ordered by their components, and two paths that neither of them comes
before the other have the same components (`upTo_antisymm`).

A sorted list of paths is strictly ascending exactly if no two have the same components
(`ascending_sort_iff`), and then there is only one such list of the same paths (`sort_eq_of_perm`).
-/

namespace BatchCodec

namespace Component

theorem charsBefore_irrefl (a : List Char) : charsBefore a a = false := by
  induction a with
  | nil => rfl
  | cons c a ih => simp [charsBefore, ih]

theorem charsBefore_trans {a b c : List Char} (hab : charsBefore a b = true)
    (hbc : charsBefore b c = true) : charsBefore a c = true := by
  induction a generalizing b c with
  | nil =>
    cases c with
    | nil => cases b <;> simp [charsBefore] at hbc
    | cons z c => rfl
  | cons x a ih =>
    cases b with
    | nil => simp [charsBefore] at hab
    | cons y b =>
      cases c with
      | nil => simp [charsBefore] at hbc
      | cons z c =>
        simp only [charsBefore, Bool.or_eq_true, Bool.and_eq_true, decide_eq_true_eq,
          beq_iff_eq] at hab hbc ⊢
        obtain hxy | ⟨rfl, hab⟩ := hab
        · obtain hyz | ⟨rfl, -⟩ := hbc
          · exact Or.inl (Nat.lt_trans hxy hyz)
          · exact Or.inl hxy
        · obtain hyz | ⟨rfl, hbc⟩ := hbc
          · exact Or.inl hyz
          · exact Or.inr ⟨rfl, ih hab hbc⟩

theorem charsBefore_total {a b : List Char} (h : a ≠ b) :
    charsBefore a b = true ∨ charsBefore b a = true := by
  induction a generalizing b with
  | nil =>
    cases b with
    | nil => exact absurd rfl h
    | cons y b => exact Or.inl rfl
  | cons x a ih =>
    cases b with
    | nil => exact Or.inr rfl
    | cons y b =>
      simp only [charsBefore, Bool.or_eq_true, Bool.and_eq_true, decide_eq_true_eq, beq_iff_eq]
      obtain hlt | heq | hgt := Nat.lt_trichotomy x.toNat y.toNat
      · exact Or.inl (Or.inl hlt)
      · obtain rfl := Char.toNat_inj.mp heq
        have hrest : a ≠ b := fun hab => h (by rw [hab])
        exact (ih hrest).imp (fun hab => Or.inr ⟨rfl, hab⟩) (fun hba => Or.inr ⟨rfl, hba⟩)
      · exact Or.inr (Or.inl hgt)

def chars : Component → List Char
  | name n => n
  | _ => []

theorem ext_rank_chars {a b : Component} (hrank : a.rank = b.rank) (hchars : a.chars = b.chars) :
    a = b := by
  cases a <;> cases b <;> simp_all [rank, chars]

theorem before_iff {a b : Component} :
    a.before b = true ↔
      a.rank < b.rank ∨ a.rank = b.rank ∧ charsBefore a.chars b.chars = true := by
  cases a <;> cases b <;> simp [before, rank, chars, charsBefore]

theorem before_irrefl (a : Component) : a.before a = false := by
  rw [← Bool.not_eq_true, before_iff, charsBefore_irrefl]
  simp

theorem before_trans {a b c : Component} (hab : a.before b = true) (hbc : b.before c = true) :
    a.before c = true := by
  rw [before_iff] at hab hbc ⊢
  obtain hab | ⟨hab, hab'⟩ := hab
  · exact Or.inl (by omega)
  · obtain hbc | ⟨hbc, hbc'⟩ := hbc
    · exact Or.inl (by omega)
    · exact Or.inr ⟨hab.trans hbc, charsBefore_trans hab' hbc'⟩

theorem before_total {a b : Component} (h : a ≠ b) : a.before b = true ∨ b.before a = true := by
  rw [before_iff, before_iff]
  obtain hlt | heq | hgt := Nat.lt_trichotomy a.rank b.rank
  · exact Or.inl (Or.inl hlt)
  · have hchars : a.chars ≠ b.chars := fun hsame => h (ext_rank_chars heq hsame)
    exact (charsBefore_total hchars).imp (fun hab => Or.inr ⟨heq, hab⟩)
      (fun hba => Or.inr ⟨heq.symm, hba⟩)
  · exact Or.inr (Or.inl hgt)

theorem upTo_cons {a b : Component} {as bs : List Component} :
    upTo (a :: as) (b :: bs) = true ↔ a.before b = true ∨ a = b ∧ upTo as bs = true := by
  simp [upTo]

theorem upTo_trans {as bs cs : List Component} (hab : upTo as bs = true)
    (hbc : upTo bs cs = true) : upTo as cs = true := by
  induction as generalizing bs cs with
  | nil => rfl
  | cons a as ih =>
    cases bs with
    | nil => simp [upTo] at hab
    | cons b bs =>
      cases cs with
      | nil => simp [upTo] at hbc
      | cons c cs =>
        rw [upTo_cons] at hab hbc ⊢
        obtain hab | ⟨rfl, hab⟩ := hab
        · obtain hbc | ⟨rfl, -⟩ := hbc
          · exact Or.inl (before_trans hab hbc)
          · exact Or.inl hab
        · exact hbc.imp id (fun ⟨heq, hbc⟩ => ⟨heq, ih hab hbc⟩)

theorem upTo_total (as bs : List Component) : upTo as bs = true ∨ upTo bs as = true := by
  induction as generalizing bs with
  | nil => exact Or.inl rfl
  | cons a as ih =>
    cases bs with
    | nil => exact Or.inr rfl
    | cons b bs =>
      rw [upTo_cons, upTo_cons]
      by_cases h : a = b
      · exact (ih bs).imp (fun hab => Or.inr ⟨h, hab⟩) (fun hba => Or.inr ⟨h.symm, hba⟩)
      · exact (before_total h).imp Or.inl Or.inl

theorem upTo_antisymm {as bs : List Component} (hab : upTo as bs = true)
    (hba : upTo bs as = true) : as = bs := by
  induction as generalizing bs with
  | nil =>
    cases bs with
    | nil => rfl
    | cons b bs => simp [upTo] at hba
  | cons a as ih =>
    cases bs with
    | nil => simp [upTo] at hab
    | cons b bs =>
      rw [upTo_cons] at hab hba
      have hnot : ¬(a.before b = true ∧ b.before a = true) := by
        rintro ⟨h, h'⟩
        have hself := before_trans h h'
        rw [before_irrefl] at hself
        cases hself
      obtain hab | ⟨rfl, hab⟩ := hab
      · obtain hba | ⟨rfl, -⟩ := hba
        · exact absurd ⟨hab, hba⟩ hnot
        · exact absurd ⟨hab, hab⟩ hnot
      · obtain hba | ⟨-, hba⟩ := hba
        · exact absurd ⟨hba, hba⟩ hnot
        · rw [ih hab hba]

end Component

namespace Path

def Before (p q : Path) : Prop := p.upTo q = true ∧ q.upTo p = false

theorem before_of_ne {p q : Path} (h : p.upTo q = true) (hne : p.components ≠ q.components) :
    p.Before q := by
  refine ⟨h, ?_⟩
  rw [← Bool.not_eq_true]
  exact fun hqp => hne (Component.upTo_antisymm h hqp)

theorem Before.components_ne {p q : Path} (h : p.Before q) : p.components ≠ q.components := by
  intro hsame
  have hback : q.upTo p = p.upTo q := by rw [upTo, upTo, hsame]
  rw [h.1, h.2] at hback
  cases hback

theorem sort_perm (paths : List Path) : (sort paths).Perm paths :=
  List.mergeSort_perm paths upTo

theorem mem_sort {p : Path} {paths : List Path} : p ∈ sort paths ↔ p ∈ paths :=
  (sort_perm paths).mem_iff

theorem pairwise_sort (paths : List Path) :
    (sort paths).Pairwise fun p q => p.upTo q = true := by
  apply List.pairwise_mergeSort
  · exact fun p q r => Component.upTo_trans
  · intro p q
    rw [Bool.or_eq_true]
    exact Component.upTo_total p.components q.components

/-- Sorting looks at nothing but the components. -/
theorem components_sort (paths : List Path) :
    (sort paths).map components = (paths.map components).mergeSort Component.upTo :=
  List.map_mergeSort fun _ _ _ _ => rfl

/-- Sorted paths ascend strictly exactly if no two have the same components. -/
theorem ascending_sort_iff {paths : List Path} :
    (sort paths).Pairwise Before ↔ paths.Pairwise fun p q => p.components ≠ q.components := by
  rw [← (sort_perm paths).pairwise_iff fun hne => hne.symm]
  exact ⟨fun h => h.imp Before.components_ne,
    fun h => (pairwise_sort paths).imp₂ (fun p q => before_of_ne) h⟩

/-- Sorting forgets the order, as long as no two of the paths differ in their texts only. -/
theorem sort_eq_of_perm {paths paths' : List Path} (hperm : paths.Perm paths')
    (h : ∀ p ∈ paths, ∀ q ∈ paths, p.components = q.components → p = q) :
    sort paths = sort paths' := by
  have hsorted : (sort paths).Perm (sort paths') :=
    ((sort_perm paths).trans hperm).trans (sort_perm paths').symm
  refine hsorted.eq_of_pairwise ?_ (pairwise_sort paths) (pairwise_sort paths')
  intro p q hp hq hpq hqp
  exact h p (mem_sort.mp hp) q (hperm.mem_iff.mpr (mem_sort.mp hq))
    (Component.upTo_antisymm hpq hqp)

end Path

end BatchCodec
