import BatchCodec.Config
import BatchCodec.Toml.Document

/-!
Reading a configuration from a TOML document.

Keys that mean nothing are passed over, but every key that means something must have a value of its
own type. The two groups of settings are tables; a list gives their settings in order instead, and a
date gives none of them.

Functions of the program: `Config.parse` (`Config.parse?`).
-/

namespace BatchCodec.Config

open Toml

def boolean? : Value → Option Bool
  | .scalar (.boolean b) => some b
  | _ => none

def text? : Value → Option String
  | .scalar (.string s) => some s
  | _ => none

def texts? : Value → Option (List String)
  | .array items => items.mapM text?
  | _ => none

def path? (v : Value) : Option Path :=
  (text? v).map Path.mk

/-- Whether a value holds nothing. -/
def isHollow : Value → Bool
  | .array [] => true
  | .table _ [] => true
  | _ => false

/-- A colour mode: its name, or a table with that name as its only key and nothing below it. -/
def colorMode? : Value → Option ColorMode
  | .scalar (.string s) => ColorMode.ofName? s
  | .table _ [(key, v)] => if isHollow v then ColorMode.ofName? key else none
  | _ => none

/-- A setting that may be left out, but not have a value of another type. -/
def optional {α : Type} (read : Value → Option α) : Option Value → Option (Option α)
  | none => some none
  | some v => (read v).map some

/-- A switch, which is off when it is left out. -/
def switch (v : Option Value) : Option Bool :=
  (optional boolean? v).map fun b => b.getD false

/-- The settings of a group, each under its name. -/
def group (names : List String) : Option Value → Option (List (Option Value))
  | none => some (names.map fun _ => none)
  | some (.table _ members) => some (names.map fun name => members.lookup name)
  | some (.array items) => some (names.zipIdx.map fun (_, i) => items[i]?)
  | some (.tables elements) =>
    some (names.zipIdx.map fun (_, i) => elements[i]?.map (Value.table .header))
  | some (.scalar .moment) => some (names.map fun _ => none)
  | some (.scalar _) => none

/-- The settings of the codec: its program and its argument templates. -/
def codec? (v : Option Value) : Option (Option String × PerDirection (Option (List String))) := do
  match ← group ["program", "compile_args", "decompile_args"] v with
  | [program, compile, decompile] =>
    return (← optional text? program, ⟨← optional texts? compile, ← optional texts? decompile⟩)
  | _ => none

def policy? (v : Option Value) : Option (PerDirection (Option Bool)) := do
  match ← group ["compile_continue_on_error", "decompile_continue_on_error"] v with
  | [compile, decompile] => return ⟨← optional boolean? compile, ← optional boolean? decompile⟩
  | _ => none

def ofMembers? (ms : Members) : Option Config := do
  let (program, templates) ← codec? (ms.lookup "codec")
  return {
    debug := ← switch (ms.lookup "debug")
    json := ← switch (ms.lookup "json")
    quiet := ← switch (ms.lookup "quiet")
    noColor := ← switch (ms.lookup "no_color")
    color := ← optional colorMode? (ms.lookup "color")
    inputDir := ← optional path? (ms.lookup "input_dir")
    outputDir := ← optional path? (ms.lookup "output_dir")
    program := program
    templates := templates
    keepGoing := ← policy? (ms.lookup "policy") }

def parse? (text : String) : Option Config :=
  (Toml.read? text).bind ofMembers?

end BatchCodec.Config
