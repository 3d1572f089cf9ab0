import BatchCodec.Path
/-!
The two directions of a conversion, and values kept once for each of them.

A direction accepts the files whose extension is one of its own, letter case of ASCII ignored.

Functions of the program: `name`, `verb`, `input_title`, `output_title`, `extensions` and `accepts` of
`Direction` (the definitions of these names), `StatusEntry.converted` (`convertedLine`).
-/

namespace BatchCodec

/-- Which way files are converted. -/
inductive Direction where
  /-- From script text to binary. -/
  | compile
  /-- From binary back to script text. -/
  | decompile
  deriving DecidableEq, Repr, Inhabited

namespace Direction

def name : Direction → String
  | compile => "compile"
  | decompile => "decompile"

/-- What has been done to a converted file. -/
def verb : Direction → String
  | compile => "compiled"
  | decompile => "decompiled"

def inputTitle : Direction → String
  | compile => "Select a text file!"
  | decompile => "Select a binary!"

def outputTitle : Direction → String
  | _ => "Select an output folder!"

/-- The extensions of the files that a folder offers for conversion. -/
def extensions : Direction → List String
  | compile => ["txt"]
  | decompile => ["lin", "bin"]

/-- Whether the direction offers a file of this path for conversion. -/
def accepts (d : Direction) (p : Path) : Bool :=
  match p.extension? with
  | none => false
  | some ext => d.extensions.any (fun e => e.toList.map Char.toLower == ext.map Char.toLower)

def convertedLine (d : Direction) (input : Path) : String :=
  "File " ++ d.verb ++ ": " ++ input.text

end Direction

structure PerDirection (α : Type) where
  compile : α
  decompile : α
  deriving DecidableEq, Repr

namespace PerDirection

variable {α : Type}

def both (a : α) : PerDirection α := ⟨a, a⟩

def get (v : PerDirection α) : Direction → α
  | .compile => v.compile
  | .decompile => v.decompile

def set (v : PerDirection α) (d : Direction) (a : α) : PerDirection α :=
  match d with
  | .compile => { v with compile := a }
  | .decompile => { v with decompile := a }

@[simp] theorem get_both (a : α) (d : Direction) : (both a).get d = a := by
  cases d <;> rfl

@[simp] theorem get_set_same (v : PerDirection α) (d : Direction) (a : α) :
    (v.set d a).get d = a := by
  cases d <;> rfl

theorem get_set_of_ne (v : PerDirection α) {d e : Direction} (a : α) (h : e ≠ d) :
    (v.set d a).get e = v.get e := by
  cases d <;> cases e <;> simp_all [get, set]

end PerDirection

end BatchCodec
