import BatchCodec.Proofs.Spelling
import BatchCodec.Settings
/-!
The command line against the configuration.

What stands on the command line decides the codec program, the output folder and the continuation
policy, whatever the configuration says, and `--no-color` decides the colour. The colour mode of the
command line does not: once an invocation is read, a mode that was written and the one that stands for
none look alike, and a configuration can ask for no colour beside it. So `--color auto` gives way to
the mode of the configuration and `--color always` to its refusal of colour; when they do not is said
exactly (`command_line_decides_all_but_colour`, `configuration_overrules_colour_mode`).
-/

namespace BatchCodec

open CommandLine

theorem ColorMode.eq_of_name {mode mode' : ColorMode} (h : mode.name = mode'.name) :
    mode = mode' := by
  have hfound := ofName?_name mode
  rw [h, ofName?_name] at hfound
  exact (Option.some.inj hfound).symm

section Colour

variable {i : Invocation} {config : Config} {terminal : Bool}

/-- Colour is a matter of both sides, unless the command line refuses it. -/
theorem color_of (h : i.noColor = false) :
    (Settings.of i config terminal).color =
      (!config.noColor &&
        (if i.color = .auto then config.color.getD .auto else i.color).isColored terminal) := by
  simp only [Settings.of, Invocation.useColor, Invocation.withConfig, h, Bool.false_or]

theorem color_of_noColor (h : i.noColor = true) : (Settings.of i config terminal).color = false := by
  simp only [Settings.of, Invocation.useColor, Invocation.withConfig, h, Bool.true_or, Bool.not_true,
    Bool.false_and]

/-- Left to the terminal, colour is as the terminal has it unless the configuration interferes. -/
theorem color_of_auto_eq_terminal_iff (h : i.noColor = false) (hmode : i.color = .auto) :
    (Settings.of i config terminal).color = terminal ↔
      if terminal then config.noColor = false ∧ config.color ≠ some .never
      else config.noColor = true ∨ config.color ≠ some .always := by
  rw [color_of h, if_pos hmode]
  cases hno : config.noColor <;> cases terminal <;> cases hcolor : config.color with
  | none => simp [ColorMode.isColored]
  | some mode => cases mode <;> simp [ColorMode.isColored]

end Colour

/-- **The command line decides all but the colour mode.** For every command line that is understood
and every configuration: the codec program that is named last is the one that runs; the output folder
that is named last is the one to start from; a flag of the continuation policy decides both
directions, to go on if both flags stand there; `--no-color` means no colour. Without it, `--color
never` means no colour, `--color always` means colour exactly when the configuration does not refuse
colour, and `--color auto` leaves it to the terminal exactly when the configuration neither refuses
colour on a terminal nor sets a mode against it. -/
theorem command_line_decides_all_but_colour (arguments : List String) (i : Invocation)
    (config : Config) (terminal : Bool) (h : Invocation.parse arguments = .ok i) :
    let said := spelled arguments
    let s := Settings.of i config terminal
    (∀ program, lastValue .codec said = some program → s.command.program = program) ∧
    (∀ folder, lastValue .output said = some folder → s.folders.output = ⟨folder⟩) ∧
    (.flag .continueOnError ∈ said → s.policy = .both true) ∧
    (.flag .stopOnError ∈ said → .flag .continueOnError ∉ said → s.policy = .both false) ∧
    (.flag .noColor ∈ said → s.color = false) ∧
    (.flag .noColor ∉ said →
      (lastValue .color said = some "never" → s.color = false) ∧
      (lastValue .color said = some "always" → (s.color = true ↔ config.noColor = false)) ∧
      (lastValue .color said = some "auto" → (s.color = terminal ↔
        if terminal then config.noColor = false ∧ config.color ≠ some .never
        else config.noColor = true ∨ config.color ≠ some .always))) := by
  intro said s
  obtain ⟨houtput, hcodec, hcolor, hflags⟩ := parse_spelled h
  have hmode : ∀ mode : ColorMode, lastValue .color said = some mode.name → i.color = mode := by
    intro mode hlast
    rw [hlast, Option.getD_some] at hcolor
    exact ColorMode.eq_of_name hcolor
  refine ⟨?_, ?_, ?_, ?_, ?_, ?_⟩
  · intro program hlast
    rw [hlast] at hcodec
    simp [s, Settings.of, Invocation.command, Invocation.withConfig, hcodec]
  · intro folder hlast
    rw [hlast] at houtput
    simp [s, Settings.of, Invocation.folders, Invocation.withConfig, houtput]
  · intro hgo
    have hraised : i.continueOnError = true := (hflags .continueOnError).mpr hgo
    simp [s, Settings.of, Invocation.policy, Invocation.withConfig, hraised]
  · intro hstop hgo
    have hraised : i.stopOnError = true := (hflags .stopOnError).mpr hstop
    have hnot : i.continueOnError = false := by
      rw [← Bool.not_eq_true]
      exact fun hc => hgo ((hflags .continueOnError).mp hc)
    simp [s, Settings.of, Invocation.policy, Invocation.withConfig, hraised, hnot]
  · intro hno
    exact color_of_noColor ((hflags .noColor).mpr hno)
  · intro hno
    have hnot : i.noColor = false := by
      rw [← Bool.not_eq_true]
      exact fun hc => hno ((hflags .noColor).mp hc)
    refine ⟨?_, ?_, ?_⟩
    · intro hlast
      have hnever := hmode .never hlast
      simp [s, color_of hnot, hnever, ColorMode.isColored]
    · intro hlast
      have halways := hmode .always hlast
      simp [s, color_of hnot, halways, ColorMode.isColored]
    · intro hlast
      exact color_of_auto_eq_terminal_iff hnot (hmode .auto hlast)

/-- Options on both sides of the subcommand, all of them against the configuration. -/
theorem command_line_decides_all_but_colour_against_configuration :
    let arguments := ["--color=auto", "--codec", "old", "compile", "a.txt", "-qobuild", "--codec=new",
      "--stop-on-error", "--color", "always"]
    let i : Invocation :=
      { task := .batch .compile, inputs := [⟨"a.txt"⟩], output := some ⟨"build"⟩, codec := some "new"
        stopOnError := true, quiet := true, color := .always }
    let config : Config :=
      { color := some .never, outputDir := some ⟨"elsewhere"⟩, program := some "other"
        keepGoing := .both (some true) }
    let s := Settings.of i config false
    Invocation.parse arguments = .ok i ∧ s.command.program = "new" ∧ s.folders.output = ⟨"build"⟩ ∧
      s.policy = .both false ∧ s.color = true := by
  intro arguments i config s
  have hparse : Invocation.parse arguments = .ok i := by rfl
  obtain ⟨hcodec, houtput, -, hstop, -, hcolor⟩ :=
    command_line_decides_all_but_colour arguments i config false hparse
  exact ⟨hparse, hcodec "new" (by decide), houtput "build" (by decide), hstop (by decide) (by decide),
    ((hcolor (by decide)).2.1 (by decide)).mpr rfl⟩

/-- A configuration takes the colour from `--color always`, and gives colour to `--color auto` where
there is no terminal. -/
theorem configuration_overrules_colour_mode :
    (Invocation.parse ["compile", "--color", "always"]).map
        (fun i => (Settings.of i { noColor := true } true).color) = .ok false ∧
      (Invocation.parse ["compile", "--color", "auto"]).map
        (fun i => (Settings.of i { color := some .always } false).color) = .ok true := by
  constructor <;> rfl

end BatchCodec
