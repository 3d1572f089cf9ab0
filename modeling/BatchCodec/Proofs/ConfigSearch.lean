import BatchCodec.Config.Search
import BatchCodec.Proofs.Routes
/-!
Which configuration is found, and which files are complained about.

A search goes on behind a place that gives no configuration, and complains about the place if there is
a text that cannot be understood (`search_cons_of_none`); a place that gives one ends the search
(`search_cons_of_some`). So behind any number of places without a configuration, the search has
complained about those of them that are broken, once each and in order, and is otherwise where it would
be if it had begun there (`search_append`). Which places are reached, and what is said about them, is a
matter of the texts at the places up to the first configuration (`search_congr`).

The places themselves are told apart by their last names and by the comparison that leaves out the
second of them (`pairwise_candidates`), so that no place is complained about twice.

Main statement: `first_usable_configuration_wins`.
-/

namespace BatchCodec

namespace Config

/-- The configuration at a place: what the text there says, if it can be read and understood. -/
def at? (t : FileTree) (p : Path) : Option Config :=
  (t.readText? p).bind parse?

/-- Whether the text at a place can be read but not understood. -/
def isBroken (t : FileTree) (p : Path) : Bool :=
  (t.readText? p).any fun text => (parse? text).isNone

section Search

variable {t : FileTree}

/-! ## One place -/

theorem search_cons_of_some {p : Path} {config : Config} (h : at? t p = some config)
    (rest : List Path) : search t (p :: rest) = ⟨config, some p, []⟩ := by
  obtain ⟨text, htext, hparse⟩ := Option.bind_eq_some_iff.mp h
  rw [search, htext]
  dsimp only
  rw [hparse]

theorem search_cons_of_none {p : Path} (h : at? t p = none) (rest : List Path) :
    search t (p :: rest) =
      { search t rest with broken := [p].filter (isBroken t) ++ (search t rest).broken } := by
  unfold at? at h
  cases htext : t.readText? p with
  | none =>
    have hbroken : isBroken t p = false := by simp [isBroken, htext]
    simp [search, htext, hbroken]
  | some text =>
    rw [htext, Option.bind_some] at h
    have hbroken : isBroken t p = true := by simp [isBroken, htext, h]
    simp [search, htext, h, hbroken]

/-! ## Several places -/

theorem search_append {before : List Path} (h : ∀ p ∈ before, at? t p = none) (rest : List Path) :
    search t (before ++ rest) =
      { search t rest with broken := before.filter (isBroken t) ++ (search t rest).broken } := by
  induction before with
  | nil => simp
  | cons p before ih =>
    rw [List.forall_mem_cons] at h
    rw [List.cons_append, search_cons_of_none h.1, ih h.2, ← List.append_assoc,
      ← List.filter_append]
    rfl

theorem search_of_first {before : List Path} (h : ∀ p ∈ before, at? t p = none) {p : Path}
    {config : Config} (hp : at? t p = some config) (after : List Path) :
    search t (before ++ p :: after) = ⟨config, some p, before.filter (isBroken t)⟩ := by
  rw [search_append h, search_cons_of_some hp, List.append_nil]

theorem search_of_none {places : List Path} (h : ∀ p ∈ places, at? t p = none) :
    search t places = ⟨{}, none, places.filter (isBroken t)⟩ := by
  have hall := search_append h []
  rw [List.append_nil] at hall
  rw [hall, search, List.append_nil]

/-- Some place is the first with a configuration, or there is none. -/
theorem exists_first_or_none (t : FileTree) (places : List Path) :
    (∃ before p after config, places = before ++ p :: after ∧ (∀ q ∈ before, at? t q = none) ∧
      at? t p = some config) ∨ ∀ q ∈ places, at? t q = none := by
  cases h : places.find? fun p => (at? t p).isSome with
  | none =>
    right
    intro q hq
    simpa using List.find?_eq_none.mp h q hq
  | some p =>
    left
    obtain ⟨hp, before, after, hplaces, hbefore⟩ := List.find?_eq_some_iff_append.mp h
    obtain ⟨config, hconfig⟩ := Option.isSome_iff_exists.mp hp
    refine ⟨before, p, after, config, hplaces, ?_, hconfig⟩
    intro q hq
    simpa using hbefore q hq

/-- Places are complained about in order, and each for itself. -/
theorem sublist_broken_search (t : FileTree) (places : List Path) :
    (search t places).broken.Sublist places := by
  obtain ⟨before, p, after, config, rfl, hbefore, hp⟩ | hnone := exists_first_or_none t places
  · rw [search_of_first hbefore hp]
    exact List.filter_sublist.trans (List.sublist_append_left before (p :: after))
  · rw [search_of_none hnone]
    exact List.filter_sublist

/-! ## What a search depends on -/

variable {t' : FileTree}

theorem at?_congr {p : Path} (h : t'.readText? p = t.readText? p) : at? t' p = at? t p := by
  rw [at?, at?, h]

theorem filter_isBroken_congr {places : List Path}
    (h : ∀ p ∈ places, t'.readText? p = t.readText? p) :
    places.filter (isBroken t') = places.filter (isBroken t) := by
  apply List.filter_congr
  intro p hp
  rw [isBroken, isBroken, h p hp]

/-- No text behind the first configuration makes a difference. -/
theorem search_congr {before after : List Path} {p : Path} {config : Config}
    (hbefore : ∀ q ∈ before, at? t q = none) (hp : at? t p = some config)
    (h : ∀ q ∈ before ++ [p], t'.readText? q = t.readText? q) :
    search t' (before ++ p :: after) = search t (before ++ p :: after) := by
  have hsame : ∀ q ∈ before, t'.readText? q = t.readText? q :=
    fun q hq => h q (List.mem_append_left [p] hq)
  have hsame' : t'.readText? p = t.readText? p := h p (by simp)
  have hbefore' : ∀ q ∈ before, at? t' q = none :=
    fun q hq => (at?_congr (hsame q hq)).trans (hbefore q hq)
  calc search t' (before ++ p :: after)
      = ⟨config, some p, before.filter (isBroken t')⟩ :=
        search_of_first hbefore' ((at?_congr hsame').trans hp) after
    _ = ⟨config, some p, before.filter (isBroken t)⟩ := by rw [filter_isBroken_congr hsame]
    _ = search t (before ++ p :: after) := (search_of_first hbefore hp after).symm

end Search

end Config

/-! ## The places -/

namespace Surroundings

theorem candidates_eq (s : Surroundings) :
    s.candidates = [configIn s.dotConfig] ++
      (if (configIn s.platformConfig).components = (configIn s.dotConfig).components then []
        else [configIn s.platformConfig]) ++ [s.home.join ".dgrtools.toml"] := by
  simp only [candidates, Path.sameAs, beq_iff_eq]
  split <;> rfl

/-- No two places are the same, however they are written. -/
theorem pairwise_candidates (s : Surroundings) :
    s.candidates.Pairwise fun p q => p.components ≠ q.components := by
  have hlast (folder : Path) :
      (configIn folder).components ≠ (s.home.join ".dgrtools.toml").components := by
    intro h
    have hnames := congrArg List.getLast? h
    rw [configIn, Path.getLast?_components_join _ (by decide),
      Path.getLast?_components_join _ (by decide)] at hnames
    exact absurd hnames (by decide)
  rw [candidates_eq]
  split
  · simp [hlast]
  · rename_i hdiffer
    simp [hlast, Ne.symm hdiffer]

end Surroundings

/-- **The first configuration that can be used wins.** There are three places for a configuration, in
this order: in the folder for configurations below the home folder, in the one of the platform unless
these two are the same component by component, and in the home folder itself. If there is a text at some
of them that can be read and understood, the first such is the configuration that is found, together
with its place; what is complained about is, once each and in order, the places before it with a text
that can be read but not understood; and whatever is changed behind it makes no difference. If there is
none, the configuration is the one that says nothing and has no place, and all the broken places are
complained about. -/
theorem first_usable_configuration_wins (t : FileTree) (s : Surroundings) :
    let dotPlace := ((s.home.join ".config").join "dgrtools").join "config.toml"
    let platformPlace := (s.platformConfig.join "dgrtools").join "config.toml"
    let places := [dotPlace] ++
      (if platformPlace.components = dotPlace.components then [] else [platformPlace]) ++
        [s.home.join ".dgrtools.toml"]
    let found := Config.load t s
    found.broken.Pairwise (fun p q => p.components ≠ q.components) ∧
    ((∃ before p after text config, places = before ++ p :: after ∧
        (∀ q ∈ before, Config.at? t q = none) ∧
        t.readText? p = some text ∧ Config.parse? text = some config ∧
        found = ⟨config, some p, before.filter (Config.isBroken t)⟩ ∧
        ∀ t' : FileTree, (∀ q ∈ before ++ [p], t'.readText? q = t.readText? q) →
          Config.load t' s = found) ∨
      (∀ q ∈ places, Config.at? t q = none) ∧
        found = ⟨{}, none, places.filter (Config.isBroken t)⟩) := by
  intro dotPlace platformPlace places found
  have hplaces : s.candidates = places := s.candidates_eq
  have hfound : found = Config.search t places := by rw [← hplaces]; rfl
  constructor
  · have hpairwise := s.pairwise_candidates
    rw [hplaces] at hpairwise
    rw [hfound]
    exact hpairwise.sublist (Config.sublist_broken_search t places)
  · obtain ⟨before, p, after, config, hsplit, hbefore, hp⟩ | hnone :=
      Config.exists_first_or_none t places
    · left
      obtain ⟨text, htext, hparse⟩ := Option.bind_eq_some_iff.mp hp
      refine ⟨before, p, after, text, config, hsplit, hbefore, htext, hparse, ?_, ?_⟩
      · rw [hfound, hsplit, Config.search_of_first hbefore hp]
      · intro t' hsame
        show Config.search t' s.candidates = found
        rw [hplaces, hfound, hsplit]
        exact Config.search_congr hbefore hp hsame
    · right
      exact ⟨hnone, by rw [hfound, Config.search_of_none hnone]⟩

-- the first place is broken, the second cannot be read, and the third is used
example :
    let broken : Node := .folder .full [("config.toml", .file { text := some "json =" })]
    let unreadable : Node := .folder .full [("config.toml", .file { text := none })]
    let t : FileTree := ⟨.folder .full [("h", .folder .full [
      (".config", .folder .full [("dgrtools", broken)]),
      ("x", .folder .full [("dgrtools", unreadable)]),
      (".dgrtools.toml", .file { text := some "json = true" })])], []⟩
    Config.load t ⟨⟨"/h"⟩, some ⟨"/h//x"⟩⟩ =
      ⟨{ json := true }, some ⟨"/h/.dgrtools.toml"⟩, [⟨"/h/.config/dgrtools/config.toml"⟩]⟩ := by
  decide +kernel

end BatchCodec
