import RowGraph.Config.Document
import RowGraph.Text.Utf8

/-!
# Config — loading a settings file

`Config.loadWith` takes the contents of the file at a path, if there is one, through its three
stages: text, document, valid settings.  It leaves open what reads the document; `Config.load` reads
it by `Config.ofDocument?`.
-/

namespace RowGraph.Config

/-- Why a settings file is refused. -/
inductive LoadError where
  | notFound (path : String)
  | notText (path : String)
  | malformed
  | invalid (fault : Fault)
  deriving DecidableEq, Repr

def LoadError.message : LoadError → String
  | .notFound path => "Configuration error: config not found: " ++ path
  | .notText path =>
      "Configuration error: failed to read " ++ path ++ ": stream did not contain valid UTF-8"
  | .malformed => "Configuration error: failed to parse"
  | .invalid fault => "Configuration error: invalid config: " ++ fault.message

/-- The settings in the file at a path, of which the contents are given. -/
def loadWith (read : String → Option Config) (path : String) (contents : Option (List UInt8)) :
    Except LoadError Config :=
  match contents with
  | none => .error (.notFound path)
  | some bytes =>
      match Utf8.decode? bytes with
      | none => .error (.notText path)
      | some text =>
          match read text with
          | none => .error .malformed
          | some c =>
              match c.validate with
              | .error fault => .error (.invalid fault)
              | .ok () => .ok c

def load : String → Option (List UInt8) → Except LoadError Config := loadWith ofDocument?

end RowGraph.Config
