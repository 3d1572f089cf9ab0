/-!
When output is coloured.
-/

namespace BatchCodec

inductive ColorMode where
  /-- On a terminal only. -/
  | auto
  | always
  | never
  deriving DecidableEq, Repr

namespace ColorMode

def name : ColorMode → String
  | auto => "auto"
  | always => "always"
  | never => "never"

def ofName? (s : String) : Option ColorMode :=
  [auto, always, never].find? fun mode => mode.name = s

def isColored (terminal : Bool) : ColorMode → Bool
  | auto => terminal
  | always => true
  | never => false

@[simp] theorem ofName?_name (mode : ColorMode) : ofName? mode.name = some mode := by
  cases mode <;> rfl

end ColorMode

end BatchCodec
