import PropCatalog.Config.FromToml
import PropCatalog.Files.Workspace

/-!
# Loading the configuration

The configuration is read from a file of a workspace. Without the file everything has its default.
-/

namespace PropCatalog.Config

open Files (Workspace PathError)

def defaultPath : Text := "propdoc.toml".toList

/-- Why a configuration cannot be loaded. -/
inductive LoadProblem where
  | unreadable (path : Text) (error : PathError)
  /-- The file is no TOML document or has a value of a wrong type. -/
  | notToml (path : Text)
  | invalid (problem : InvalidValue)

/-- The text of a problem; what is wrong with a document is not told. -/
def LoadProblem.message : LoadProblem → Text
  | .unreadable path error =>
    "Failed to read config ".toList ++ path ++ ": ".toList ++ error.message
  | .notToml path => "Invalid TOML in ".toList ++ path
  | .invalid problem => problem.message

/-- Loads the configuration from the file at a path. -/
def load (ws : Workspace) (path : Option Text) : Except LoadProblem Config :=
  let path := path.getD defaultPath
  if !ws.exists? path then .ok .standard
  else
    match ws.readText path with
    | .error error => .error (.unreadable path error)
    | .ok content =>
      match ofText? content with
      | none => .error (.notToml path)
      | some config =>
        match config.validate with
        | .error problem => .error (.invalid problem)
        | .ok () => .ok config

end PropCatalog.Config
