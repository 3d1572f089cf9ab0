import BatchCodec.CommandLine.Invocation
/-!
What the arguments of a command line spell, and that reading them takes it all in.

`spelled` lists the options of a command line as they stand there, with their values, from left to
right. It knows how one argument is written and which argument is a value; it knows nothing of
subcommands, levels, values that wait to be settled, or conflicts. Reading the command line goes
through a level for the arguments before the subcommand and one for those behind it, and a level
collects. What carries the proof is that a level holds exactly what was spelled since it began
(`Level.Holds`): every argument that does not fail extends both sides by the same options, a value
that still waits included (`Extends`). Since a level refuses an option it already has, nothing is
overwritten, and the two levels together hold what the command line spells (`parse_holds`). So of an
option that is given more than once the last value counts, and a flag is raised if it stands
anywhere (`parse_spelled`).
-/

namespace BatchCodec.CommandLine

/-- An option as it stands on a command line. -/
inductive Spelled where
  | setting (s : Setting) (value : String)
  | flag (f : Flag)
  deriving DecidableEq, Repr

/-- What one argument spells: options, and perhaps one whose value is the next argument. -/
structure Spelling where
  options : List Spelled := []
  awaited : Option Setting := none
  deriving DecidableEq, Repr

namespace Spelling

/-- An option with the value written behind it, if there is one. -/
def ofSetting (s : Setting) (value : Option String) : Spelling :=
  { options := (value.map (.setting s)).toList, awaited := if value.isSome then none else some s }

/-- The value behind the name of an option, set off by an equals sign. -/
def longValue : List Char → Option String
  | [] => none
  | _ :: value => some (String.ofList value)

/-- The value behind the letter of an option, an equals sign in front left out. -/
def shortValue : List Char → Option String
  | [] => none
  | '=' :: value => some (String.ofList value)
  | value => some (String.ofList value)

def ofLong (body : List Char) : Spelling :=
  match longNames.lookup (String.ofList (body.takeWhile (· != '='))) with
  | some (.setting s) => ofSetting s (longValue (body.dropWhile (· != '=')))
  | some (.flag f) => { options := [.flag f] }
  | _ => {}

def ofShort : List Char → Spelling
  | [] => {}
  | letter :: rest =>
    match letters.lookup letter with
    | some (.setting s) => ofSetting s (shortValue rest)
    | some (.flag f) =>
      { options := .flag f :: (ofShort rest).options, awaited := (ofShort rest).awaited }
    | _ => {}

end Spelling

/-- The options that arguments spell, the first argument being the value of an awaited one. A divider
ends the options. -/
def spelledAfter : Option Setting → List String → List Spelled
  | _, [] => []
  | some s, value :: rest => .setting s value :: spelledAfter none rest
  | none, argument :: rest =>
    match Shape.of argument with
    | .divider => []
    | .long body =>
      (Spelling.ofLong body).options ++ spelledAfter (Spelling.ofLong body).awaited rest
    | .short body =>
      (Spelling.ofShort body).options ++ spelledAfter (Spelling.ofShort body).awaited rest
    | .plain => spelledAfter none rest

/-- The options that a command line spells, from left to right. -/
def spelled (arguments : List String) : List Spelled := spelledAfter none arguments

def valuesOf (s : Setting) (said : List Spelled) : List String :=
  said.filterMap fun
    | .setting t value => if t = s then some value else none
    | .flag _ => none

def flagsOf (said : List Spelled) : List Flag :=
  said.filterMap fun
    | .setting _ _ => none
    | .flag f => some f

def lastValue (s : Setting) (said : List Spelled) : Option String := (valuesOf s said).getLast?

theorem valuesOf_append (s : Setting) (a b : List Spelled) :
    valuesOf s (a ++ b) = valuesOf s a ++ valuesOf s b :=
  List.filterMap_append

theorem flagsOf_append (a b : List Spelled) : flagsOf (a ++ b) = flagsOf a ++ flagsOf b :=
  List.filterMap_append

theorem lastValue_append (s : Setting) (a b : List Spelled) :
    lastValue s (a ++ b) = (lastValue s b).or (lastValue s a) := by
  rw [lastValue, valuesOf_append, List.getLast?_append]
  rfl

theorem mem_flagsOf {f : Flag} {said : List Spelled} : f ∈ flagsOf said ↔ .flag f ∈ said := by
  rw [flagsOf, List.mem_filterMap]
  constructor
  · rintro ⟨option, hoption, hf⟩
    cases option with
    | setting s value => cases hf
    | flag g =>
      cases hf
      exact hoption
  · intro h
    exact ⟨.flag f, h, rfl⟩

/-! ## What a level holds -/

namespace Level

/-- The value a level has for a setting, as it was written. -/
def value? (l : Level) : Setting → Option String
  | .output => l.output
  | .codec => l.codec
  | .color => l.color.map ColorMode.name

/-- The value that came for a setting and is not settled yet. -/
def supplied (l : Level) (s : Setting) : List String :=
  match l.pending with
  | some (.setting t (some value)) => if t = s then [value] else []
  | _ => []

/-- The setting whose value has not come yet. -/
def awaited (l : Level) : Option Setting :=
  match l.pending with
  | some (.setting s none) => some s
  | _ => none

/-- A level holds options: their values, settled or not, and their flags, and no others. -/
structure Holds (l : Level) (said : List Spelled) : Prop where
  values : ∀ s, (l.value? s).toList ++ l.supplied s = valuesOf s said
  flags : l.flags = flagsOf said

theorem holds_empty : ({} : Level).Holds [] :=
  ⟨fun s => by cases s <;> rfl, rfl⟩

theorem awaits_eq (l : Level) : l.awaits = l.awaited.isSome := by
  unfold awaits awaited
  split <;> simp_all

theorem supplied_of_pending_none {l : Level} (h : l.pending = none) (s : Setting) :
    l.supplied s = [] := by
  simp [supplied, h]

theorem awaited_of_pending_none {l : Level} (h : l.pending = none) : l.awaited = none := by
  simp [awaited, h]

/-! ### Single steps -/

section Steps

variable {l l' : Level}

/-- A value is given only to a setting that has none, and nothing else changes. -/
theorem assign_eq_ok {s : Setting} {value : String} (h : l.assign s value = .ok l') :
    l.value? s = none ∧ l'.flags = l.flags ∧ l'.pending = l.pending ∧
      ∀ t, l'.value? t = if s = t then some value else l.value? t := by
  unfold assign at h
  split at h
  · cases h
  · rename_i hnone
    cases s with
    | output =>
      dsimp only at h
      split at h
      · cases h
      · cases h
        refine ⟨by simpa [hasSetting, value?] using hnone, rfl, rfl, ?_⟩
        intro t
        cases t <;> rfl
    | codec =>
      cases h
      refine ⟨by simpa [hasSetting, value?] using hnone, rfl, rfl, ?_⟩
      intro t
      cases t <;> rfl
    | color =>
      dsimp only at h
      split at h
      · rename_i mode hmode
        cases h
        -- the mode is known by the name that was written
        have hname : mode.name = value := by simpa using List.find?_some hmode
        refine ⟨by simpa [hasSetting, value?] using hnone, rfl, rfl, ?_⟩
        intro t
        cases t <;> simp [value?, hname]
      · cases h

/-- Settling turns a value that waits into one the level has; a value that has not come fails it. -/
theorem settle_eq_ok (h : l.settle = .ok l') :
    l.awaited = none ∧ l'.pending = none ∧ l'.flags = l.flags ∧
      ∀ s, (l'.value? s).toList = (l.value? s).toList ++ l.supplied s := by
  unfold settle at h
  unfold awaited supplied
  split at h
  · rename_i hpending
    cases h
    simp [hpending]
  · cases h
  · rename_i s value hpending
    obtain ⟨hnone, hflags, hpending', hvalue⟩ := assign_eq_ok h
    rw [hpending]
    refine ⟨rfl, hpending', hflags, ?_⟩
    intro t
    rw [hvalue t]
    by_cases ht : s = t
    · subst ht
      have hempty : l.value? s = none := by cases s <;> exact hnone
      simp [hempty]
    · cases t <;> simp [ht, value?]
  · rename_i values hpending
    split at h
    · cases h
    · cases h
      rw [hpending]
      refine ⟨rfl, rfl, rfl, ?_⟩
      intro t
      cases t <;> simp [value?]

end Steps

section Holding

variable {l l' : Level} {said : List Spelled}

theorem Holds.settle (hl : l.Holds said) (h : l.settle = .ok l') :
    l'.Holds said ∧ l'.pending = none := by
  obtain ⟨-, hpending, hflags, hvalue⟩ := settle_eq_ok h
  refine ⟨⟨?_, hflags.trans hl.flags⟩, hpending⟩
  intro s
  rw [hvalue s, supplied_of_pending_none hpending, List.append_nil, hl.values s]

theorem Holds.assign (hl : l.Holds said) (hp : l.pending = none) {s : Setting} {value : String}
    (h : l.assign s value = .ok l') : l'.Holds (said ++ [.setting s value]) := by
  obtain ⟨hnone, hflags, hpending, hvalue⟩ := assign_eq_ok h
  refine ⟨?_, ?_⟩
  · intro t
    have ht := hl.values t
    rw [supplied_of_pending_none hp, List.append_nil] at ht
    rw [supplied_of_pending_none (hpending.trans hp), List.append_nil, hvalue t, valuesOf_append,
      ← ht]
    by_cases hst : s = t
    · subst hst
      simp [valuesOf, hnone]
    · simp [valuesOf, hst]
  · rw [hflags, hl.flags, flagsOf_append]
    simp [flagsOf]

theorem Holds.raise (hl : l.Holds said) {f : Flag} (h : l.raise f = .ok l') :
    l'.Holds (said ++ [.flag f]) ∧ l'.awaited = none ∧ l.awaited = none := by
  unfold Level.raise at h
  split at h
  · cases h
  · rename_i m hm
    obtain ⟨hholds, hpending⟩ := hl.settle hm
    split at h
    · cases h
    · cases h
      refine ⟨⟨?_, ?_⟩, awaited_of_pending_none hpending, (settle_eq_ok hm).1⟩
      · intro s
        rw [valuesOf_append, ← hholds.values s]
        cases s <;> exact (List.append_nil _).symm
      · rw [flagsOf_append, ← hholds.flags]
        rfl

theorem Holds.set (hl : l.Holds said) {s : Setting} {value : Option String}
    (h : l.set s value = .ok l') :
    l'.Holds (said ++ (Spelling.ofSetting s value).options) ∧
      l'.awaited = (Spelling.ofSetting s value).awaited ∧ l.awaited = none := by
  unfold Level.set at h
  split at h
  · cases h
  · rename_i m hm
    obtain ⟨hholds, hpending⟩ := hl.settle hm
    have hawaited := (settle_eq_ok hm).1
    cases value with
    | some value =>
      have hpending' := (assign_eq_ok h).2.2.1.trans hpending
      exact ⟨hholds.assign hpending h, awaited_of_pending_none hpending', hawaited⟩
    | none =>
      cases h
      refine ⟨⟨?_, ?_⟩, rfl, hawaited⟩
      · intro t
        have ht := hholds.values t
        rw [supplied_of_pending_none hpending] at ht
        simp only [Spelling.ofSetting, Option.map_none, Option.toList_none, List.append_nil, ← ht]
        cases t <;> exact List.append_nil _
      · simpa [Spelling.ofSetting] using hholds.flags

theorem Holds.addInput (hl : l.Holds said) {value : String} (h : l.addInput value = .ok l') :
    l'.Holds said ∧ l'.awaited = none ∧ l.awaited = none := by
  unfold Level.addInput at h
  split at h
  · rename_i values hpending
    cases h
    refine ⟨⟨?_, hl.flags⟩, rfl, by simp [awaited, hpending]⟩
    intro s
    rw [← hl.values s]
    cases s <;> simp [value?, supplied, hpending]
  · cases hm : l.settle with
    | error e => rw [hm] at h; cases h
    | ok m =>
      rw [hm] at h
      cases h
      obtain ⟨hholds, hpending⟩ := hl.settle hm
      refine ⟨⟨?_, hholds.flags⟩, rfl, (settle_eq_ok hm).1⟩
      intro s
      rw [← hholds.values s, supplied_of_pending_none hpending]
      cases s <;> rfl

theorem Holds.supply (hl : l.Holds said) {s : Setting} (hs : l.awaited = some s) (value : String) :
    (l.supply value).Holds (said ++ [.setting s value]) ∧ (l.supply value).awaited = none := by
  unfold awaited at hs
  split at hs
  · rename_i t hpending
    cases hs
    unfold Level.supply
    rw [hpending]
    refine ⟨⟨?_, ?_⟩, rfl⟩
    · intro t
      rw [valuesOf_append, ← hl.values t]
      simp only [supplied, hpending, List.append_nil]
      by_cases hst : s = t <;> cases t <;> simp [value?, valuesOf, hst]
    · rw [flagsOf_append]
      simpa [flagsOf] using hl.flags
  · cases hs

/-! ### Arguments -/

theorem halting_eq_ok {r : Except UsageError Level} (h : halting r = .ok l') : r = .ok l' := by
  cases r with
  | error e => cases h
  | ok m => cases h; rfl

theorem stopWith_ne_ok {halt : Halt} : l.stopWith halt ≠ .ok l' := by
  unfold stopWith
  split <;> exact fun h => by cases h

theorem lookup_of_ofLongName? {scope : Scope} {name : String} {m : Meaning}
    (h : Meaning.ofLongName? scope name = some m) : longNames.lookup name = some m :=
  (Option.filter_eq_some_iff.mp h).1

theorem lookup_of_ofLetter? {scope : Scope} {letter : Char} {m : Meaning}
    (h : Meaning.ofLetter? scope letter = some m) : letters.lookup letter = some m :=
  (Option.filter_eq_some_iff.mp h).1

theorem Holds.long (hl : l.Holds said) {scope : Scope} {body : List Char}
    (h : Level.long scope l body = .ok l') :
    l'.Holds (said ++ (Spelling.ofLong body).options) ∧
      l'.awaited = (Spelling.ofLong body).awaited ∧ l.awaited = none := by
  unfold Level.long at h
  unfold Spelling.ofLong
  dsimp only at h
  split at h
  · cases h
  · rename_i s hname
    rw [lookup_of_ofLongName? hname]
    exact hl.set (halting_eq_ok h)
  · cases h
  · rename_i f hname _
    rw [lookup_of_ofLongName? hname]
    exact hl.raise (halting_eq_ok h)
  · exact absurd h stopWith_ne_ok
  · exact absurd h stopWith_ne_ok

theorem Holds.short {scope : Scope} {body : List Char} (hl : l.Holds said)
    (hbody : l.awaited = none ∨ body ≠ []) (h : Level.short scope l body = .ok l') :
    l'.Holds (said ++ (Spelling.ofShort body).options) ∧
      l'.awaited = (Spelling.ofShort body).awaited ∧ l.awaited = none := by
  induction body generalizing l said with
  | nil =>
    have hawaited : l.awaited = none := by simpa using hbody
    cases h
    exact ⟨by simpa [Spelling.ofShort] using hl, hawaited, hawaited⟩
  | cons letter rest ih =>
    unfold Level.short at h
    unfold Spelling.ofShort
    split at h
    · cases h
    · rename_i s hname
      rw [lookup_of_ofLetter? hname]
      exact hl.set (halting_eq_ok h)
    · rename_i f hname
      rw [lookup_of_ofLetter? hname]
      split at h
      · cases h
      · rename_i m hm
        obtain ⟨hholds, hnext, hawaited⟩ := hl.raise hm
        obtain ⟨hrest, hlast, -⟩ := ih hholds (Or.inl hnext) h
        rw [List.append_assoc] at hrest
        exact ⟨hrest, hlast, hawaited⟩
    · exact absurd h stopWith_ne_ok
    · exact absurd h stopWith_ne_ok

end Holding

end Level

/-! ## Reading a level -/

/-- An argument takes a level that holds some options to one that holds those of the argument as
well, with the rest of the command line read on from there. -/
def Extends (l : Level) (argument : String) (l' : Level) : Prop :=
  ∀ said rest, l.Holds said → ∃ options, l'.Holds (said ++ options) ∧
    spelledAfter l.awaited (argument :: rest) = options ++ spelledAfter l'.awaited rest

section Arguments

variable {l l' : Level} {argument : String}

theorem extends_long {scope : Scope} {body : List Char} (hshape : Shape.of argument = .long body)
    (h : Level.long scope l body = .ok l') : Extends l argument l' := by
  intro said rest hl
  obtain ⟨hholds, hnext, hawaited⟩ := hl.long h
  exact ⟨_, hholds, by simp [hawaited, hnext, spelledAfter, hshape]⟩

theorem Shape.short_ne_nil {body : List Char} (h : Shape.of argument = .short body) :
    body ≠ [] := by
  unfold Shape.of at h
  split at h <;> simp_all

theorem extends_short {scope : Scope} {body : List Char} (hshape : Shape.of argument = .short body)
    (h : Level.short scope l body = .ok l') : Extends l argument l' := by
  intro said rest hl
  obtain ⟨hholds, hnext, hawaited⟩ := hl.short (Or.inr (Shape.short_ne_nil hshape)) h
  exact ⟨_, hholds, by simp [hawaited, hnext, spelledAfter, hshape]⟩

theorem extends_supply (h : l.awaits = true) : Extends l argument (l.supply argument) := by
  intro said rest hl
  rw [Level.awaits_eq] at h
  obtain ⟨s, hs⟩ := Option.isSome_iff_exists.mp h
  obtain ⟨hholds, hnext⟩ := hl.supply hs argument
  exact ⟨_, hholds, by simp [hs, hnext, spelledAfter]⟩

theorem extends_addInput (hshape : Shape.of argument = .plain)
    (h : l.addInput argument = .ok l') : Extends l argument l' := by
  intro said rest hl
  obtain ⟨hholds, hnext, hawaited⟩ := hl.addInput h
  exact ⟨[], by simpa using hholds, by simp [hawaited, hnext, spelledAfter, hshape]⟩

end Arguments

section Reading

variable {l l' : Level} {said : List Spelled}

/-- Behind a divider everything is an input, and nothing may be awaited. -/
theorem readCommand_divided {scope : Scope} {arguments : List String} (hl : l.Holds said)
    (h : readCommand scope true l arguments = .ok l') (hend : l'.awaited = none) :
    l'.Holds said ∧ l.awaited = none := by
  induction arguments generalizing l with
  | nil =>
    cases h
    exact ⟨hl, hend⟩
  | cons argument rest ih =>
    unfold readCommand at h
    dsimp only at h
    rw [if_pos rfl] at h
    split at h
    · cases h
    · rename_i m hm
      split at hm
      · obtain ⟨hholds, -, hawaited⟩ := hl.addInput (Level.halting_eq_ok hm)
        exact ⟨(ih hholds h).1, hawaited⟩
      · cases hm

theorem readCommand_holds {scope : Scope} {arguments : List String} (hl : l.Holds said)
    (h : readCommand scope false l arguments = .ok l') (hend : l'.awaited = none) :
    l'.Holds (said ++ spelledAfter l.awaited arguments) := by
  induction arguments generalizing l said with
  | nil =>
    cases h
    simpa [spelledAfter] using hl
  | cons argument rest ih =>
    -- whatever the argument is, the level behind it holds what the argument spells
    have hstep : ∀ m, Extends l argument m → readCommand scope false m rest = .ok l' →
        l'.Holds (said ++ spelledAfter l.awaited (argument :: rest)) := by
      intro m hm hrest
      obtain ⟨options, hholds, hspelled⟩ := hm said rest hl
      rw [hspelled, ← List.append_assoc]
      exact ih hholds hrest
    unfold readCommand at h
    dsimp only at h
    rw [if_neg Bool.false_ne_true] at h
    split at h
    · rename_i hshape
      obtain ⟨hholds, hawaited⟩ := readCommand_divided hl h hend
      simpa [hawaited, spelledAfter, hshape] using hholds
    · rename_i body hshape
      split at h
      · cases h
      · rename_i m hm
        exact hstep m (extends_long hshape hm) h
    · rename_i body hshape
      split at h
      · cases h
      · rename_i m hm
        exact hstep m (extends_short hshape hm) h
    · rename_i hshape
      split at h
      · rename_i hawaits
        exact hstep _ (extends_supply hawaits) h
      · split at h
        · cases h
        · rename_i m hm
          split at hm
          · exact hstep m (extends_addInput hshape (Level.halting_eq_ok hm)) h
          · cases hm

theorem readRoot_divided {arguments : List String} {root : Level} {command : Task × List String} :
    readRoot true l arguments ≠ .ok ⟨root, some command⟩ := by
  cases arguments with
  | nil => exact fun h => by cases h
  | cons argument rest => exact fun h => by cases h

/-- Before the subcommand, a level takes in what stands there and leaves the rest to the next. -/
theorem readRoot_holds {arguments rest : List String} {root : Level} {task : Task}
    (hl : l.Holds said) (h : readRoot false l arguments = .ok ⟨root, some (task, rest)⟩) :
    ∃ before, root.Holds (said ++ before) ∧
      spelledAfter l.awaited arguments = before ++ spelledAfter none rest := by
  induction arguments generalizing l said with
  | nil => cases h
  | cons argument arguments ih =>
    have hstep : ∀ m, Extends l argument m →
        readRoot false m arguments = .ok ⟨root, some (task, rest)⟩ →
        ∃ before, root.Holds (said ++ before) ∧
          spelledAfter l.awaited (argument :: arguments) = before ++ spelledAfter none rest := by
      intro m hm hrest
      obtain ⟨options, hholds, hspelled⟩ := hm said arguments hl
      obtain ⟨before, hroot, hbefore⟩ := ih hholds hrest
      rw [List.append_assoc] at hroot
      exact ⟨options ++ before, hroot, by rw [hspelled, hbefore, List.append_assoc]⟩
    unfold readRoot at h
    rw [if_neg Bool.false_ne_true] at h
    split at h
    · exact absurd h readRoot_divided
    · rename_i body hshape
      split at h
      · cases h
      · rename_i m hm
        exact hstep m (extends_long hshape hm) h
    · rename_i body hshape
      split at h
      · cases h
      · rename_i m hm
        exact hstep m (extends_short hshape hm) h
    · rename_i hshape
      split at h
      · rename_i hawaits
        exact hstep _ (extends_supply hawaits) h
      · rename_i hawaits
        split at h
        · cases h
        · split at h
          · -- the subcommand itself spells nothing
            have hawaited : l.awaited = none := by
              simpa [Level.awaits_eq] using hawaits
            cases h
            exact ⟨[], by simpa using hl, by simp [hawaited, spelledAfter, hshape]⟩
          · cases h

end Reading

/-! ## The whole command line -/

theorem Level.finish_eq_ok {l l' : Level} (h : l.finish = .ok l') : l.settle = .ok l' := by
  unfold finish at h
  split at h
  · cases h
  · rename_i m hm
    split at h
    · cases h
    · rwa [← h]

/-- With nothing left to settle, a level has the last value that was spelled for a setting. -/
theorem Level.Holds.value?_eq {l : Level} {said : List Spelled} (hl : l.Holds said)
    (hp : l.pending = none) (s : Setting) : l.value? s = lastValue s said := by
  have hvalues := hl.values s
  rw [supplied_of_pending_none hp, List.append_nil] at hvalues
  rw [lastValue, ← hvalues]
  cases l.value? s <;> rfl

theorem parse_holds {arguments : List String} {i : Invocation}
    (h : Invocation.parse arguments = .ok i) :
    ∃ task root sub before behind, i = Invocation.ofLevels task root sub ∧
      (root.Holds before ∧ root.pending = none) ∧ (sub.Holds behind ∧ sub.pending = none) ∧
      spelled arguments = before ++ behind := by
  unfold Invocation.parse at h
  split at h
  · cases h
  · split at h <;> cases h
  · rename_i root task rest hroot
    obtain ⟨before, hbefore, hspelled⟩ := readRoot_holds Level.holds_empty hroot
    split at h
    · cases h
    · rename_i sub hsub
      split at h
      · cases h
      · rename_i sub' hsub'
        split at h
        · cases h
        · rename_i root' hroot'
          cases h
          have hsettle := Level.finish_eq_ok hsub'
          have hbehind := readCommand_holds Level.holds_empty hsub (Level.settle_eq_ok hsettle).1
          exact ⟨task, root', sub', before, spelledAfter none rest, rfl,
            hbefore.settle (Level.finish_eq_ok hroot'), hbehind.settle hsettle, hspelled⟩

namespace Invocation

def raises (i : Invocation) : Flag → Bool
  | .continueOnError => i.continueOnError
  | .stopOnError => i.stopOnError
  | .json => i.json
  | .quiet => i.quiet
  | .noColor => i.noColor
  | .debug => i.debug

theorem raises_ofLevels (task : Task) (root sub : Level) (f : Flag) :
    (ofLevels task root sub).raises f = true ↔ f ∈ root.flags ∨ f ∈ sub.flags := by
  cases f <;> simp [raises, ofLevels]

end Invocation

/-- Reading a command line gives every setting the value that is spelled last and raises exactly the
flags that are spelled. -/
theorem parse_spelled {arguments : List String} {i : Invocation}
    (h : Invocation.parse arguments = .ok i) :
    i.output = (lastValue .output (spelled arguments)).map Path.mk ∧
      i.codec = lastValue .codec (spelled arguments) ∧
      i.color.name = (lastValue .color (spelled arguments)).getD ColorMode.auto.name ∧
      ∀ f, i.raises f = true ↔ .flag f ∈ spelled arguments := by
  obtain ⟨task, root, sub, before, behind, rfl, ⟨hroot, hroot'⟩, ⟨hsub, hsub'⟩, hspelled⟩ :=
    parse_holds h
  have hlast : ∀ s, lastValue s (spelled arguments) = (sub.value? s).or (root.value? s) := by
    intro s
    rw [hspelled, lastValue_append, hsub.value?_eq hsub', hroot.value?_eq hroot']
  refine ⟨?_, ?_, ?_, ?_⟩
  · rw [hlast]
    rfl
  · rw [hlast]
    rfl
  · rw [hlast]
    simp only [Invocation.ofLevels, Level.value?]
    cases sub.color <;> cases root.color <;> rfl
  · intro f
    rw [Invocation.raises_ofLevels, hroot.flags, hsub.flags, mem_flagsOf, mem_flagsOf, hspelled,
      List.mem_append]

end BatchCodec.CommandLine
