import BatchCodec.Config.Decode
import BatchCodec.FileTree

/-!
Finding a configuration.

There are up to three places for it, tried in order. A file that is not there or cannot be read is
passed over in silence; one that cannot be understood is passed over with a warning; the first that
can be understood is the configuration, and no later place is looked at.

Functions of the program: `Config.load` (`Config.load`, its loop `Config.search`), `get_config_paths`
(`Surroundings.candidates`).
-/

namespace BatchCodec

/-- What the surroundings say about where configuration files are. -/
structure Surroundings where
  home : Path
  /-- The folder for configuration files, used if it is absolute. -/
  configHome : Option Path := none
  deriving DecidableEq, Repr

namespace Surroundings

def dotConfig (s : Surroundings) : Path := s.home.join ".config"

def platformConfig (s : Surroundings) : Path :=
  match s.configHome with
  | some folder => if folder.isAbsolute then folder else s.dotConfig
  | none => s.dotConfig

def configIn (folder : Path) : Path :=
  (folder.join "dgrtools").join "config.toml"

/-- The places for a configuration file, in order; the second is left out if it is the first. -/
def candidates (s : Surroundings) : List Path :=
  let first := configIn s.dotConfig
  let second := configIn s.platformConfig
  let third := s.home.join ".dgrtools.toml"
  if second.sameAs first then [first, third] else [first, second, third]

end Surroundings

/-- A configuration with the place it was found at, and the places passed over with a warning. -/
structure Found where
  config : Config
  source : Option Path
  broken : List Path
  deriving DecidableEq, Repr

namespace Config

/-- The first configuration among places that can be understood, or the one that says nothing. -/
def search (t : FileTree) : List Path → Found
  | [] => ⟨{}, none, []⟩
  | p :: rest =>
    match t.readText? p with
    | none => search t rest
    | some text =>
      match parse? text with
      | some config => ⟨config, some p, []⟩
      | none =>
        let found := search t rest
        { found with broken := p :: found.broken }

def load (t : FileTree) (s : Surroundings) : Found :=
  search t s.candidates

end Config

/-- What is said about a configuration file that cannot be understood, up to the cause. -/
def brokenWarning (p : Path) : String :=
  "Warning: Failed to parse " ++ p.text ++ ": "

end BatchCodec
